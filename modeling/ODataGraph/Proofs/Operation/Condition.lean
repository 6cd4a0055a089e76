import Mathlib.Data.List.Induction
import ODataGraph.Operation.Scope
import ODataGraph.Proofs.Sequence

/-!
What the types of fragments leave of a scope, read off the list of them as a whole: which objects
are left, whose fields are selected, and when there is no such list of types.
-/

namespace ODataGraph.Scope

variable {s : Scope} {conditions before : List String} {c t : String} {n : Narrowed}

/-- Whether an object is of the type of a fragment. The scope's own type is that of all objects. -/
def satisfies (s : Scope) (t condition : String) : Bool :=
  condition = s.typeName || (s.registry.findByName? condition).any fun (key, _) =>
    (s.registry.possibleTypes key).contains t

/-- The objects of a scope that satisfy all conditions. -/
def left (s : Scope) (conditions : List String) : List String :=
  s.possibleTypes.filter fun t => conditions.all (s.satisfies t)

/-- The innermost condition other than the scope's own type. -/
def innermost? (s : Scope) (conditions : List String) : Option String :=
  (conditions.filter (· ≠ s.typeName)).getLast?

/-- The object whose fields are selected within fragments. -/
def objectWithin (s : Scope) (conditions : List String) : Option ObjectType :=
  match s.innermost? conditions with
  | some c => (s.registry.findByName? c).bind fun (key, _) =>
      (s.registry.concreteObject? key).map Prod.snd
  | none => s.object

/-- Fragments of some types can stand within each other: each type is the scope's own, or a
registered object or union with which something of the scope is left. -/
structure Admits (s : Scope) (conditions : List String) : Prop where
  known : ∀ c ∈ conditions, c = s.typeName ∨
    ∃ key type, s.registry.findByName? c = some (key, type) ∧ type.isComposite
  possible : ∀ before c, before ++ [c] <+: conditions → c ≠ s.typeName → s.left (before ++ [c]) ≠ []

theorem admits_nil : s.Admits [] := by
  constructor
  · nofun
  · intro before c h
    simp at h

theorem left_append_own (h : c = s.typeName) : s.left (before ++ [c]) = s.left before := by
  simp [left, satisfies, h]

theorem left_append {key : String} {type : Descriptor} (h : c ≠ s.typeName)
    (hc : s.registry.findByName? c = some (key, type)) : s.left (before ++ [c]) =
      (s.left before).filter fun t => (s.registry.possibleTypes key).contains t := by
  simp only [left, List.filter_filter]
  congr 1
  funext t
  simp [satisfies, h, hc, Bool.and_comm]

theorem innermost?_append_own (h : c = s.typeName) :
    s.innermost? (before ++ [c]) = s.innermost? before := by
  simp [innermost?, h]

theorem innermost?_append (h : c ≠ s.typeName) : s.innermost? (before ++ [c]) = some c := by
  simp [innermost?, h]

theorem admits_append : s.Admits (before ++ [c]) ↔ s.Admits before ∧ (c = s.typeName ∨
    c ≠ s.typeName ∧ ∃ key type, s.registry.findByName? c = some (key, type) ∧ type.isComposite ∧
      s.left (before ++ [c]) ≠ []) := by
  constructor
  · intro h
    refine ⟨⟨fun c' hc' => h.known c' (List.mem_append_left _ hc'), fun before' c' hp hc' =>
      h.possible before' c' (hp.trans (List.prefix_append _ _)) hc'⟩, ?_⟩
    by_cases hc : c = s.typeName
    · exact .inl hc
    · obtain ⟨key, type, hfind, htype⟩ :=
        (h.known c (List.mem_append_right _ (List.mem_singleton_self c))).resolve_left hc
      exact .inr ⟨hc, key, type, hfind, htype, h.possible before c (List.prefix_refl _) hc⟩
  · rintro ⟨h, hc⟩
    constructor
    · intro c' hc'
      rcases List.mem_append.1 hc' with hc' | hc'
      · exact h.known c' hc'
      · rw [List.mem_singleton.1 hc']
        rcases hc with hc | ⟨_, key, type, hfind, htype, _⟩
        · exact .inl hc
        · exact .inr ⟨key, type, hfind, htype⟩
    · intro before' c' hp hc'
      rcases List.prefix_concat_iff.1 hp with heq | hp
      · obtain ⟨rfl, rfl⟩ := List.append_singleton_inj.1 heq
        rcases hc with hc | ⟨_, _, _, _, _, hleft⟩
        · exact absurd hc hc'
        · exact hleft
      · exact h.possible before' c' hp hc'

/-- What is left within fragments. -/
def within (s : Scope) (conditions : List String) : Narrowed where
  object := s.objectWithin conditions
  possibleTypes := s.left conditions
  typeName := s.innermost? conditions

theorem within_append_own (h : c = s.typeName) : s.within (before ++ [c]) = s.within before := by
  simp only [within, objectWithin, left_append_own h, innermost?_append_own h]

/-- Narrowing by one more type than before, which has to be admitted too. -/
theorem narrowBy_within : s.narrowBy (s.within before) c = .ok n ↔
    (c = s.typeName ∨ c ≠ s.typeName ∧ ∃ key type, s.registry.findByName? c = some (key, type) ∧
      type.isComposite ∧ s.left (before ++ [c]) ≠ []) ∧ n = s.within (before ++ [c]) := by
  rw [narrowBy]
  by_cases hc : c = s.typeName
  · rw [if_pos hc, within_append_own hc, Except.ok.injEq]
    exact ⟨fun hn => ⟨.inl hc, hn.symm⟩, fun hn => hn.2.symm⟩
  · rw [if_neg hc]
    cases hfind : s.registry.findByName? c with
    | none => simp [hc]
    | some found =>
      obtain ⟨key, type⟩ := found
      have hleft : (s.left before).filter (fun t => (s.registry.possibleTypes key).contains t) =
          s.left (before ++ [c]) := (left_append hc hfind).symm
      have hobject : s.objectWithin (before ++ [c]) =
          (s.registry.concreteObject? key).map Prod.snd := by
        simp only [objectWithin, innermost?_append hc, hfind, Option.bind_some]
      simp only [within, hleft, hobject, innermost?_append hc]
      by_cases htype : type.isComposite
      · cases hempty : s.left (before ++ [c]) with
        | nil => simp [hc, htype]
        | cons t rest =>
          simp only [htype, if_true, List.isEmpty_cons, Bool.false_eq_true, if_false,
            Except.ok.injEq]
          exact ⟨fun hn => ⟨.inr ⟨hc, key, type, rfl, htype, List.cons_ne_nil t rest⟩, hn.symm⟩,
            fun hn => hn.2.symm⟩
      · simp [hc, htype]

/-- Narrowing has a result if the types of the fragments are admitted. -/
theorem narrow_eq_ok_iff :
    s.narrow conditions = .ok n ↔ s.Admits conditions ∧ n = s.within conditions := by
  induction conditions using List.reverseRecOn generalizing n with
  | nil =>
    have hstart : s.within [] = ⟨s.object, s.possibleTypes, none⟩ := by
      simp [within, objectWithin, left, innermost?]
    rw [narrow, List.foldlM_nil, hstart]
    exact ⟨fun hn => ⟨admits_nil, (Except.ok.inj hn).symm⟩, fun hn => congrArg _ hn.2.symm⟩
  | append_singleton before c ih =>
    have hsplit : s.narrow (before ++ [c]) = s.narrow before >>= fun n => s.narrowBy n c := by
      rw [narrow, List.foldlM_append]
      simp [narrow]
    rw [hsplit, bind_eq_ok_iff, admits_append, and_assoc, ← narrowBy_within]
    constructor
    · rintro ⟨n', hn', hn⟩
      obtain ⟨hadmits, rfl⟩ := ih.1 hn'
      exact ⟨hadmits, hn⟩
    · rintro ⟨hadmits, hn⟩
      exact ⟨_, ih.2 ⟨hadmits, rfl⟩, hn⟩

/-- A selection carries a condition if objects of the scope are excluded. -/
theorem condition_within : s.condition (s.within conditions) =
    if s.left conditions = s.possibleTypes then none
    else (s.innermost? conditions).map (⟨·, s.left conditions⟩) := by
  have hsublist : (s.left conditions).Sublist s.possibleTypes := List.filter_sublist
  rw [condition, within]
  cases hinnermost : s.innermost? conditions with
  | none => simp
  | some c =>
    by_cases hall : s.left conditions = s.possibleTypes
    · simp [hall]
    · have hlt : (s.left conditions).length < s.possibleTypes.length :=
        Nat.lt_of_not_le fun hle => hall (hsublist.eq_of_length_le hle)
      simp [hall, hlt]

/-- Nothing is left of a root, so that fragments on it are on its own type. -/
theorem admits_root_iff {r : Registry} {o : ObjectType} :
    (root r o).Admits conditions ↔ ∀ c ∈ conditions, c = o.name := by
  constructor
  · intro h c hc
    refine Classical.byContradiction fun hne => ?_
    obtain ⟨before, after, rfl⟩ := List.append_of_mem hc
    have hprefix : before ++ [c] <+: before ++ c :: after := ⟨after, by simp⟩
    exact h.possible before c hprefix hne rfl
  · intro h
    constructor
    · exact fun c hc => .inl (h c hc)
    · intro before c hp hne
      exact absurd (h c (hp.subset (List.mem_append_right _ (List.mem_singleton_self c)))) hne

end ODataGraph.Scope
