import Mathlib.Data.List.Perm.Basic
import Mathlib.Logic.Relation
import ODataGraph.Registry.Inheritance

/-!
The hierarchy of declared types as a relation between their names: its pairs are the declared
extensions, each after that of its base, and nothing extends itself.
-/

namespace ODataGraph

open Relation (ReflTransGen TransGen)

/-- A declared type extends another declared one. -/
def Csdl.Extends (types : List Csdl.StructuredType) (name base : String) : Prop :=
  ∃ t ∈ types, t.name = name ∧ t.baseName = some base ∧ base ∈ types.map (·.name)

namespace Hierarchy

open Csdl (StructuredType Extends)

variable {types : List StructuredType} {name base : String}

theorem nodup_eraseDups {α : Type} [DecidableEq α] (l : List α) : l.eraseDups.Nodup := by
  induction hn : l.length using Nat.strongRecOn generalizing l with
  | ind n ih =>
    cases l with
    | nil => simp
    | cons a rest =>
      rw [List.eraseDups_cons, List.nodup_cons]
      have hle := List.length_filter_le (fun b => !b == a) rest
      refine ⟨by simp [List.mem_eraseDups], ih _ ?_ _ rfl⟩
      rw [List.length_cons] at hn
      omega

theorem mem_bases (hnodup : (types.map (·.name)).Nodup) :
    (name, base) ∈ (bases types).entries ↔ Extends types name base := by
  have hkeys : ((types.filterMap fun t =>
      (t.baseName.filter (types.map (·.name)).contains).map (t.name, ·)).map Prod.fst).Nodup := by
    refine List.pairwise_map.2 (List.Pairwise.filterMap _ ?_ (List.pairwise_map.1 hnodup))
    intro t t' hne e he e' he'
    obtain ⟨_, _, rfl⟩ := Option.map_eq_some_iff.1 he
    obtain ⟨_, _, rfl⟩ := Option.map_eq_some_iff.1 he'
    exact hne
  rw [bases, OrderedMap.entries_ofList hkeys]
  simp only [List.mem_filterMap, Option.map_eq_some_iff, Option.filter_eq_some_iff,
    List.contains_iff_mem, Prod.mk.injEq, Extends]
  constructor
  · rintro ⟨t, ht, b, ⟨hb, hdeclared⟩, rfl, rfl⟩
    exact ⟨t, ht, rfl, hb, hdeclared⟩
  · rintro ⟨t, ht, rfl, hb, hdeclared⟩
    exact ⟨t, ht, base, ⟨hb, hdeclared⟩, rfl, rfl⟩

theorem entries_filter_ready (pending : OrderedMap String String) :
    (pending.filter fun name _ => !((ready pending).map Prod.fst).contains name).entries =
      pending.entries.filter fun e => pending.contains e.2 := by
  refine List.filter_congr fun e he => ?_
  obtain ⟨name, base⟩ := e
  have hready : name ∈ (ready pending).map Prod.fst ↔ pending.contains base = false := by
    simp only [ready, List.mem_map, List.mem_filter, Prod.exists, exists_and_right, exists_eq_right]
    constructor
    · rintro ⟨b, hb, hc⟩
      cases (OrderedMap.mem_entries_iff.1 hb).symm.trans (OrderedMap.mem_entries_iff.1 he)
      exact Bool.not_eq_true' _ ▸ hc
    · intro hc
      exact ⟨base, he, Bool.not_eq_true' _ ▸ hc⟩
  cases hc : pending.contains base with
  | true => simpa [hc] using hready
  | false => simpa [hc] using hready

/-- Taking pairs in rounds only reorders them. -/
theorem perm_of_order {rounds : Nat} {pending : OrderedMap String String}
    {l : List (String × String)} (h : order rounds pending = .ok l) : l.Perm pending.entries := by
  induction rounds generalizing pending l with
  | zero =>
    rw [order] at h
    split at h
    · rename_i hempty
      cases h
      rw [List.isEmpty_iff.1 hempty]
    · cases h
  | succ rounds ih =>
    rw [order] at h
    dsimp only at h
    split at h
    · rename_i hempty
      cases h
      rw [List.isEmpty_iff.1 hempty]
    · split at h
      · cases h
      · cases hlater : order rounds (pending.filter fun name _ =>
            !((ready pending).map Prod.fst).contains name) with
        | error names => rw [hlater] at h; cases h
        | ok later =>
          rw [hlater] at h
          cases h
          have hperm := ih hlater
          rw [entries_filter_ready] at hperm
          refine (hperm.append_left _).trans ?_
          simpa [ready] using
            List.filter_append_perm (fun e => !pending.contains e.2) pending.entries

/-- No pair's base stands as a type in a later pair, or in the same. -/
theorem pairwise_of_order {rounds : Nat} {pending : OrderedMap String String}
    {l : List (String × String)} (h : order rounds pending = .ok l) :
    (l.Pairwise fun e e' => e.2 ≠ e'.1) ∧ ∀ e ∈ l, e.2 ≠ e.1 := by
  induction rounds generalizing pending l with
  | zero =>
    rw [order] at h
    split at h
    · cases h
      simp
    · cases h
  | succ rounds ih =>
    have hperm := perm_of_order h
    rw [order] at h
    dsimp only at h
    split at h
    · cases h
      simp
    · split at h
      · cases h
      · cases hlater : order rounds (pending.filter fun name _ =>
            !((ready pending).map Prod.fst).contains name) with
        | error names => rw [hlater] at h; cases h
        | ok later =>
          rw [hlater] at h
          cases h
          obtain ⟨hpairwise, hirrefl⟩ := ih hlater
          have hready : ∀ e ∈ ready pending, ∀ e' ∈ ready pending ++ later, e.2 ≠ e'.1 := by
            intro e he e' he' heq
            have hbase : pending.contains e.2 = false := by
              simpa only [Bool.not_eq_true'] using (List.mem_filter.1 he).2
            have hkey := List.mem_map_of_mem (f := Prod.fst) (hperm.mem_iff.1 he')
            exact OrderedMap.contains_eq_false_iff.1 hbase (heq ▸ hkey)
          refine ⟨List.pairwise_append.2 ⟨?_, hpairwise, ?_⟩, fun e he => ?_⟩
          · exact List.pairwise_of_forall_mem_list fun e he e' he' =>
              hready e he e' (List.mem_append_left _ he')
          · exact fun e he e' he' => hready e he e' (List.mem_append_right _ he')
          · rcases List.mem_append.1 he with hnow | hlater
            · exact hready e hnow e he
            · exact hirrefl e hlater

theorem pairwise_sorted (names : List String) : (sorted names).Pairwise (· ≤ ·) := by
  have hpairwise : (sorted names).Pairwise fun a b => decide (a ≤ b) = true := by
    apply List.pairwise_mergeSort
    · intro a b c hab hbc
      exact decide_eq_true (String.le_trans (of_decide_eq_true hab) (of_decide_eq_true hbc))
    · intro a b
      rw [Bool.or_eq_true, decide_eq_true_iff, decide_eq_true_iff]
      exact String.le_total a b
  exact hpairwise.imp of_decide_eq_true

/-- The pairs of a hierarchy are those of a relation, each after that of its base. -/
structure Sorts (h : Hierarchy) (R : String → String → Prop) : Prop where
  mem_edges_iff : ∀ {name base}, (name, base) ∈ h.edges ↔ R name base
  nodup : (h.edges.map Prod.fst).Nodup
  pairwise : h.edges.Pairwise fun e e' => e.2 ≠ e'.1
  irrefl : ∀ e ∈ h.edges, e.2 ≠ e.1

/-- The pairs of a hierarchy are the extensions among declared types, bases first. -/
abbrev Orders (h : Hierarchy) (types : List StructuredType) : Prop := h.Sorts (Extends types)

theorem sorts_of_ofTypes {h : Hierarchy} (hh : ofTypes types = .ok h) :
    h.Sorts fun name base => (name, base) ∈ (bases types).entries := by
  rw [ofTypes] at hh
  split at hh
  · rename_i edges horder
    cases hh
    have hperm := perm_of_order horder
    obtain ⟨hpairwise, hirrefl⟩ := pairwise_of_order horder
    exact ⟨hperm.mem_iff, (hperm.map Prod.fst).nodup_iff.2 (bases types).nodup, hpairwise, hirrefl⟩
  · cases hh

theorem orders_of_ofTypes {h : Hierarchy} (hnodup : (types.map (·.name)).Nodup)
    (hh : ofTypes types = .ok h) : h.Orders types :=
  { sorts_of_ofTypes hh with
    mem_edges_iff := (sorts_of_ofTypes hh).mem_edges_iff.trans (mem_bases hnodup) }

/-- Following such pairs leads through the list, towards its beginning. -/
theorem not_transGen_of_pairwise {l : List (String × String)}
    (hpairwise : l.Pairwise fun e e' => e.2 ≠ e'.1) (hirrefl : ∀ e ∈ l, e.2 ≠ e.1) (name : String) :
    ¬ TransGen (fun name base => (name, base) ∈ l) name name := by
  induction l generalizing name with
  | nil =>
    intro hcycle
    obtain ⟨_, hmem, _⟩ := TransGen.head'_iff.1 hcycle
    cases hmem
  | cons e rest ih =>
    obtain ⟨hhead, hrest⟩ := List.pairwise_cons.1 hpairwise
    have hlast : ∀ next, (e.2, next) ∉ e :: rest := by
      intro next hmem
      rcases List.mem_cons.1 hmem with heq | hmem
      · exact hirrefl e List.mem_cons_self (congrArg Prod.fst heq)
      · exact hhead _ hmem rfl
    -- the first pair leads nowhere, so that a longer way does not use it
    have hway : ∀ {a b}, TransGen (fun name base => (name, base) ∈ e :: rest) a b →
        b = e.2 ∨ TransGen (fun name base => (name, base) ∈ rest) a b := by
      intro a b hab
      induction hab with
      | single hmem =>
        rcases List.mem_cons.1 hmem with rfl | hmem
        · exact .inl rfl
        · exact .inr (.single hmem)
      | tail _ hmem ihway =>
        rcases ihway with rfl | hway
        · exact absurd hmem (hlast _)
        · rcases List.mem_cons.1 hmem with rfl | hmem
          · exact .inl rfl
          · exact .inr (hway.tail hmem)
    intro hcycle
    rcases hway hcycle with rfl | hcycle
    · obtain ⟨next, hmem, _⟩ := TransGen.head'_iff.1 hcycle
      exact hlast next hmem
    · exact ih hrest (fun e' he' => hirrefl e' (List.mem_cons_of_mem _ he')) name hcycle

namespace Sorts

variable {h : Hierarchy} {R : String → String → Prop}

theorem extends_eq (ho : h.Sorts R) : R = fun name base => (name, base) ∈ h.edges := by
  funext name base
  exact propext ho.mem_edges_iff.symm

theorem not_transGen (ho : h.Sorts R) (name : String) : ¬ TransGen R name name := by
  rw [ho.extends_eq]
  exact not_transGen_of_pairwise ho.pairwise ho.irrefl name

theorem base_unique (ho : h.Sorts R) {b b' : String} (hb : R name b) (hb' : R name b') :
    b = b' := by
  have hlookup := (OrderedMap.mem_iff_lookup_of_nodup ho.nodup).1 (ho.mem_edges_iff.2 hb)
  have hlookup' := (OrderedMap.mem_iff_lookup_of_nodup ho.nodup).1 (ho.mem_edges_iff.2 hb')
  exact Option.some.inj (hlookup.symm.trans hlookup')

theorem isBase_iff (ho : h.Sorts R) : h.isBase base = true ↔ ∃ name, R name base := by
  simp only [isBase, List.any_eq_true, beq_iff_eq, Prod.exists, exists_eq_right, ho.mem_edges_iff]

theorem mem_baseNames (ho : h.Sorts R) : base ∈ h.baseNames ↔ ∃ name, R name base := by
  simp only [baseNames, List.mem_eraseDups, List.mem_map, Prod.exists, exists_eq_right,
    ho.mem_edges_iff]

theorem mem_children (ho : h.Sorts R) : name ∈ h.children base ↔ R name base := by
  simp only [children, List.mem_map, List.mem_filter, beq_iff_eq, Prod.exists,
    exists_and_right, exists_eq_right, ho.mem_edges_iff]

theorem nodup_children (ho : h.Sorts R) (base : String) : (h.children base).Nodup :=
  List.Sublist.nodup (List.filter_sublist.map Prod.fst) ho.nodup

end Sorts

end Hierarchy

end ODataGraph
