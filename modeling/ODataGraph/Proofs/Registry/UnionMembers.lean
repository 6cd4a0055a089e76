import ODataGraph.Proofs.Registry.Hierarchy
import ODataGraph.Text.Cut

/-!
The members of unions: the objects of all types below a base, each once, and the base's own. Keys
of base variants are told from other keys by their ending.
-/

namespace ODataGraph

open Relation (ReflTransGen TransGen)

/-- A key that could be that of a base variant. -/
def IsBaseKey (key : String) : Prop := ∃ name, key = baseKey name

theorem isBaseKey_baseKey (name : String) : IsBaseKey (baseKey name) := ⟨name, rfl⟩

@[simp] theorem baseKey_inj {a b : String} : baseKey a = baseKey b ↔ a = b :=
  String.append_left_inj baseEnding

theorem dropEnd?_baseEnding {key name : String} :
    Text.dropEnd? baseEnding key = some name ↔ key = baseKey name := by
  rw [Text.dropEnd?, baseKey]
  constructor
  · intro h
    split at h
    · rename_i hsuffix
      obtain ⟨start, hstart⟩ := List.isSuffixOf_iff_suffix.1 hsuffix
      cases h
      rw [← String.toList_inj, String.toList_append, String.toList_ofList, ← hstart]
      have hlength := congrArg List.length hstart
      rw [List.length_append, String.length_toList, String.length_toList] at hlength
      rw [show key.length - baseEnding.length = start.length by omega, List.take_left]
    · cases h
  · rintro rfl
    have hsuffix : baseEnding.toList.isSuffixOf (name ++ baseEnding).toList = true := by
      rw [String.toList_append]
      exact List.isSuffixOf_iff_suffix.2 (List.suffix_append _ _)
    rw [if_pos hsuffix, String.length_append, Nat.add_sub_cancel, String.toList_append,
      ← String.length_toList, List.take_left, String.ofList_toList]

theorem dropEnd?_eq_none {key : String} (h : ¬ IsBaseKey key) :
    Text.dropEnd? baseEnding key = none := by
  cases hd : Text.dropEnd? baseEnding key with
  | none => rfl
  | some name => exact absurd ⟨name, dropEnd?_baseEnding.1 hd⟩ h

namespace Hierarchy

variable {R : String → String → Prop} {h : Hierarchy} {root name base : String}
  {visited queue : List String}

/-- The key of the base variant of a type that others extend. -/
def IsVariant (h : Hierarchy) (key : String) : Prop :=
  ∃ base, h.isBase base = true ∧ key = baseKey base

theorem IsVariant.isBaseKey {key : String} : h.IsVariant key → IsBaseKey key
  | ⟨base, _, heq⟩ => ⟨base, heq⟩

theorem objectKey_inj_of_not_isVariant {a b : String} (ha : ¬ h.IsVariant a)
    (hb : ¬ h.IsVariant b) (heq : h.objectKey a = h.objectKey b) : a = b := by
  rw [objectKey, objectKey] at heq
  split at heq <;> split at heq
  · exact baseKey_inj.1 heq
  · exact absurd ⟨a, ‹_›, heq.symm⟩ hb
  · exact absurd ⟨b, ‹_›, heq⟩ ha
  · exact heq

theorem objectKey_inj {a b : String} (ha : ¬ IsBaseKey a) (hb : ¬ IsBaseKey b)
    (heq : h.objectKey a = h.objectKey b) : a = b :=
  objectKey_inj_of_not_isVariant (fun hv => ha hv.isBaseKey) (fun hv => hb hv.isBaseKey) heq

/-- How far the types below a root were followed: those in the queue are known but not their
children. -/
structure Walk (R : String → String → Prop) (root : String) (visited queue : List String) :
    Prop where
  nodup : (visited ++ queue).Nodup
  below : ∀ y ∈ visited ++ queue, TransGen R y root
  parent : ∀ y ∈ visited ++ queue, ∃ b, R y b ∧ (b = root ∨ b ∈ visited)
  closed : ∀ x ∈ visited, ∀ y, R y x → y ∈ visited ++ queue

theorem Walk.start (ho : h.Sorts R) (root : String) : Walk R root [] (h.children root) where
  nodup := ho.nodup_children root
  below _ hy := .single (ho.mem_children.1 hy)
  parent _ hy := ⟨root, ho.mem_children.1 hy, .inl rfl⟩
  closed _ hx := by cases hx

theorem Walk.step (ho : h.Sorts R) (w : Walk R root visited (name :: queue)) :
    Walk R root (visited ++ [name]) (queue ++ h.children name) := by
  have happend : visited ++ [name] ++ (queue ++ h.children name) =
      (visited ++ name :: queue) ++ h.children name := by simp
  have hname : name ∈ visited ++ name :: queue := by simp
  have hnew : name ∉ visited := fun hmem =>
    (List.nodup_append.1 w.nodup).2.2 name hmem name List.mem_cons_self rfl
  refine ⟨?_, ?_, ?_, ?_⟩
  · rw [happend]
    refine List.nodup_append.2 ⟨w.nodup, ho.nodup_children name, ?_⟩
    -- a child that is known already would have come from another parent
    rintro y hy _ hchild rfl
    obtain ⟨b, hb, hwhere⟩ := w.parent y hy
    cases ho.base_unique hb (ho.mem_children.1 hchild)
    rcases hwhere with rfl | hmem
    · exact ho.not_transGen name (w.below name hname)
    · exact hnew hmem
  · rw [happend]
    intro y hy
    rcases List.mem_append.1 hy with hy | hchild
    · exact w.below y hy
    · exact .head (ho.mem_children.1 hchild) (w.below name hname)
  · rw [happend]
    intro y hy
    rcases List.mem_append.1 hy with hy | hchild
    · obtain ⟨b, hb, hwhere⟩ := w.parent y hy
      exact ⟨b, hb, hwhere.imp_right (List.mem_append_left _)⟩
    · exact ⟨name, ho.mem_children.1 hchild, .inr (by simp)⟩
  · rw [happend]
    intro x hx y hy
    rcases List.mem_append.1 hx with hx | hx
    · exact List.mem_append_left _ (w.closed x hx y hy)
    · cases List.mem_singleton.1 hx
      exact List.mem_append_right _ (ho.mem_children.2 hy)

theorem Walk.length_le (ho : h.Sorts R) (w : Walk R root visited queue) :
    visited.length + queue.length ≤ h.edges.length := by
  have hsub : visited ++ queue ⊆ h.edges.map Prod.fst := by
    intro y hy
    obtain ⟨b, hb, _⟩ := w.parent y hy
    exact List.mem_map_of_mem (f := Prod.fst) (ho.mem_edges_iff.2 hb)
  simpa using (List.subperm_of_subset w.nodup hsub).length_le

/-- With a step for every type left, all types below the root are found. -/
theorem membersBelow_eq (ho : h.Sorts R)
    (hnames : ∀ name base, R name base → ¬ h.IsVariant name) {steps : Nat}
    (w : Walk R root visited queue) (hsteps : h.edges.length ≤ visited.length + steps) :
    ∃ all, h.membersBelow steps (visited.map h.objectKey) queue = all.map h.objectKey ∧
      Walk R root all [] ∧ visited ++ queue ⊆ all := by
  induction steps generalizing visited queue with
  | zero =>
    have hqueue : queue = [] := by
      have hlength := w.length_le ho
      exact List.length_eq_zero_iff.1 (by omega)
    subst hqueue
    exact ⟨visited, rfl, w, by simp⟩
  | succ steps ih =>
    cases queue with
    | nil => exact ⟨visited, rfl, w, by simp⟩
    | cons name queue =>
      have hkey : h.objectKey name ∉ visited.map h.objectKey := by
        intro hmem
        obtain ⟨y, hy, heq⟩ := List.mem_map.1 hmem
        obtain ⟨_, hext, _⟩ := w.parent y (List.mem_append_left _ hy)
        obtain ⟨_, hext', _⟩ := w.parent name (by simp)
        cases objectKey_inj_of_not_isVariant (hnames _ _ hext) (hnames _ _ hext') heq
        exact (List.nodup_append.1 w.nodup).2.2 name hy name List.mem_cons_self rfl
      rw [membersBelow, if_neg (by simpa using hkey)]
      have hlength : h.edges.length ≤ (visited ++ [name]).length + steps := by
        rw [List.length_append, List.length_singleton]
        omega
      obtain ⟨all, hall, hwalk, hsub⟩ := ih (w.step ho) hlength
      rw [List.map_append, List.map_singleton] at hall
      refine ⟨all, hall, hwalk, fun y hy => hsub ?_⟩
      simp only [List.mem_append, List.mem_cons] at hy ⊢
      tauto

/-- A union has the objects of exactly the types below its base, each once, and the base's own. -/
theorem unionMembers_eq (ho : h.Sorts R)
    (hnames : ∀ name base, R name base → ¬ h.IsVariant name) (root : String) :
    ∃ below : List String, h.unionMembers root = below.map h.objectKey ++ [baseKey root] ∧
      below.Nodup ∧ ∀ y, y ∈ below ↔ TransGen R y root := by
  have hsteps : h.edges.length ≤ ([] : List String).length + h.edges.length := by simp
  obtain ⟨all, hall, hwalk, hsub⟩ := membersBelow_eq ho hnames (.start ho root) hsteps
  have hbelow : ∀ y, y ∈ all ↔ TransGen R y root := by
    refine fun y => ⟨fun hy => hwalk.below y (by simpa using hy), fun hy => ?_⟩
    induction hy using TransGen.head_induction_on with
    | single hext => exact hsub (by simpa using ho.mem_children.2 hext)
    | head hext _ ih => simpa using hwalk.closed _ ih _ hext
  have hroot : baseKey root ∉ all.map h.objectKey := by
    intro hmem
    obtain ⟨y, hy, heq⟩ := List.mem_map.1 hmem
    obtain ⟨_, hext, _⟩ := hwalk.parent y (by simpa using hy)
    rw [objectKey] at heq
    split at heq
    · cases baseKey_inj.1 heq
      exact ho.not_transGen root ((hbelow root).1 hy)
    · obtain ⟨child, _, hchild⟩ := TransGen.tail'_iff.1 ((hbelow y).1 hy)
      exact hnames _ _ hext ⟨root, ho.isBase_iff.2 ⟨child, hchild⟩, heq⟩
  refine ⟨all, ?_, by simpa using hwalk.nodup, hbelow⟩
  rw [List.map_nil] at hall
  rw [unionMembers, hall, if_neg (by simpa using hroot)]

end Hierarchy

end ODataGraph
