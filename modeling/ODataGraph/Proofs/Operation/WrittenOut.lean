import Mathlib.Data.Set.Card
import ODataGraph.Proofs.Operation.Limit
import ODataGraph.Proofs.Reachability

/-!
Documents with their fragments written where they are spread. When that has been done once for each
fragment there is nothing left to write out, if every fragment is defined and none reaches itself.
-/

namespace ODataGraph.Graphql

open Relation (ReflTransGen TransGen)

section Definitions

variable (fragments : OrderedMap String Fragment)

mutual

/-- A selection with every spread in it, at any depth, replaced by the fragment of that name. The
spreads within the fragments are left. -/
def Selection.writtenOut : Selection → Selection
  | .field responseKey name arguments directives selections =>
    .field responseKey name arguments directives (Selection.allWrittenOut selections)
  | .inline condition directives selections =>
    .inline condition directives (Selection.allWrittenOut selections)
  | .spread name directives =>
    match fragments.get? name with
    | some g => .inline (some g.condition) directives g.selections
    | none => .spread name directives

def Selection.allWrittenOut : List Selection → List Selection
  | [] => []
  | s :: rest => Selection.writtenOut s :: Selection.allWrittenOut rest

end

def OperationDefinition.writtenOut (o : OperationDefinition) : OperationDefinition :=
  { o with selections := Selection.allWrittenOut fragments o.selections }

def Operations.writtenOut : Operations → Operations
  | .anonymous o => .anonymous (o.writtenOut fragments)
  | .named operations => .named (operations.map fun _ o => o.writtenOut fragments)

/-- Selections in which some of the spreads, at any depth, are replaced by their fragments, in which
the same has been done. -/
inductive Selection.WritesOut : List Selection → List Selection → Prop
  | nil : WritesOut [] []
  | field {responseKey name arguments directives selections selections' rest rest'}
      (hselections : WritesOut selections selections') (hrest : WritesOut rest rest') :
      WritesOut (.field responseKey name arguments directives selections :: rest)
        (.field responseKey name arguments directives selections' :: rest')
  | inline {condition directives selections selections' rest rest'}
      (hselections : WritesOut selections selections') (hrest : WritesOut rest rest') :
      WritesOut (.inline condition directives selections :: rest)
        (.inline condition directives selections' :: rest')
  | spread {name directives rest rest'} (hrest : WritesOut rest rest') :
      WritesOut (.spread name directives :: rest) (.spread name directives :: rest')
  | replaced {name directives g selections rest rest'} (hg : fragments.get? name = some g)
      (hselections : WritesOut g.selections selections) (hrest : WritesOut rest rest') :
      WritesOut (.spread name directives :: rest)
        (.inline (some g.condition) directives selections :: rest')

end Definitions

/-- The same field, with selections in which spreads are replaced. -/
inductive SelectedField.WritesOut (fragments : OrderedMap String Fragment) :
    SelectedField → SelectedField → Prop
  | intro {f : SelectedField} {selections : List Selection}
      (h : Selection.WritesOut fragments f.selections selections) :
      WritesOut fragments f { f with selections }

/-- All operations of a document with what is spread in them written out. -/
def Document.writtenOut (d : Document) : Document :=
  { d with operations := d.operations.writtenOut d.fragments }

variable {fragments : OrderedMap String Fragment} {l l' : List Selection}

/-! ### What is written out -/

theorem Selection.WritesOut.refl (l : List Selection) : WritesOut fragments l l := by
  match l with
  | [] => exact .nil
  | .field _ _ _ _ selections :: rest => exact .field (refl selections) (refl rest)
  | .inline _ _ selections :: rest => exact .inline (refl selections) (refl rest)
  | .spread _ _ :: rest => exact .spread (refl rest)

theorem Selection.writesOut_allWrittenOut (l : List Selection) :
    WritesOut fragments l (Selection.allWrittenOut fragments l) := by
  match l with
  | [] => exact .nil
  | .field _ _ _ _ selections :: rest =>
    exact .field (writesOut_allWrittenOut selections) (writesOut_allWrittenOut rest)
  | .inline _ _ selections :: rest =>
    exact .inline (writesOut_allWrittenOut selections) (writesOut_allWrittenOut rest)
  | .spread name directives :: rest =>
    rw [Selection.allWrittenOut, Selection.writtenOut]
    split
    · rename_i g hg
      exact .replaced hg (.refl g.selections) (writesOut_allWrittenOut rest)
    · exact .spread (writesOut_allWrittenOut rest)

theorem Selection.WritesOut.isEmpty (h : WritesOut fragments l l') : l'.isEmpty = l.isEmpty := by
  cases h <;> rfl

theorem SelectedField.WritesOut.refl (f : SelectedField) : f.WritesOut fragments f :=
  .intro (.refl f.selections)

namespace Operations

theorem definitions_writtenOut (operations : Operations) :
    (operations.writtenOut fragments).definitions =
      operations.definitions.map (·.writtenOut fragments) := by
  cases operations with
  | anonymous o => rfl
  | named operations =>
    simp [writtenOut, definitions, OrderedMap.values, OrderedMap.map, Function.comp_def]

theorem select_writtenOut (operations : Operations) (name : Option String) :
    (operations.writtenOut fragments).select name =
      (operations.select name).map (·.writtenOut fragments) := by
  cases operations with
  | anonymous o => cases name <;> rfl
  | named operations =>
    cases name with
    | some name =>
      rw [writtenOut, select, select, OrderedMap.get?_map]
      cases operations.get? name <;> rfl
    | none =>
      have hvalues : (operations.map fun _ o => o.writtenOut fragments).values =
          operations.values.map (·.writtenOut fragments) :=
        definitions_writtenOut (.named operations)
      rw [writtenOut, select, select, hvalues]
      rcases operations.values with _ | ⟨o, _ | ⟨_, _⟩⟩ <;> rfl

end Operations

/-! ### What is left to write out -/

mutual

/-- What is spread once spreads are written out is spread in the fragments, or not defined. -/
theorem Selection.mem_spreads_writtenOut {s : Selection} {name : String}
    (h : name ∈ (s.writtenOut fragments).spreads) :
    name ∈ s.spreads ∧ fragments.get? name = none ∨
      ∃ outer ∈ s.spreads, ∃ g, fragments.get? outer = some g ∧
        name ∈ Selection.allSpreads g.selections := by
  cases s with
  | field => exact Selection.mem_allSpreads_allWrittenOut h
  | inline => exact Selection.mem_allSpreads_allWrittenOut h
  | spread outer directives =>
    rw [Selection.writtenOut] at h
    split at h
    · rename_i g hg
      exact .inr ⟨outer, List.mem_cons_self, g, hg, h⟩
    · rename_i hnone
      cases List.mem_singleton.1 h
      exact .inl ⟨List.mem_cons_self, hnone⟩

theorem Selection.mem_allSpreads_allWrittenOut {l : List Selection} {name : String}
    (h : name ∈ Selection.allSpreads (Selection.allWrittenOut fragments l)) :
    name ∈ Selection.allSpreads l ∧ fragments.get? name = none ∨
      ∃ outer ∈ Selection.allSpreads l, ∃ g, fragments.get? outer = some g ∧
        name ∈ Selection.allSpreads g.selections := by
  cases l with
  | nil => cases h
  | cons s rest =>
    rw [Selection.allWrittenOut, Selection.allSpreads, List.mem_append] at h
    rw [Selection.allSpreads]
    simp only [List.mem_append]
    rcases h with h | h
    · rcases Selection.mem_spreads_writtenOut h with ⟨h, hnone⟩ | ⟨outer, houter, h⟩
      · exact .inl ⟨.inl h, hnone⟩
      · exact .inr ⟨outer, .inl houter, h⟩
    · rcases Selection.mem_allSpreads_allWrittenOut h with ⟨h, hnone⟩ | ⟨outer, houter, h⟩
      · exact .inl ⟨.inr h, hnone⟩
      · exact .inr ⟨outer, .inr houter, h⟩

end

/-- No fragment reaches itself. -/
def Environment.Acyclic (e : Environment) : Prop := ∀ name, ¬ TransGen e.Spreads name name

namespace Document

/-- The definition of a fragment spreads another, at any depth of fields. -/
def Spreads (d : Document) : String → String → Prop :=
  Environment.Spreads ⟨d.fragments, ∅⟩

/-- No fragment of a document reaches itself. -/
def Acyclic (d : Document) : Prop := Environment.Acyclic ⟨d.fragments, ∅⟩

/-- Everything that is spread in a document is defined there. -/
structure DefinesSpreads (d : Document) : Prop where
  operations : ∀ o ∈ d.operations.definitions, ∀ name ∈ Selection.allSpreads o.selections,
    name ∈ d.fragments.keys
  fragments : ∀ g ∈ d.fragments.values, ∀ name ∈ Selection.allSpreads g.selections,
    name ∈ d.fragments.keys

variable {d : Document} {name inner : String}

@[simp] theorem fragments_iterate (d : Document) (n : Nat) :
    (writtenOut^[n] d).fragments = d.fragments := by
  induction n with
  | zero => rfl
  | succ n ih =>
    rw [Function.iterate_succ_apply']
    exact ih

theorem Acyclic.iterate (hd : d.Acyclic) (n : Nat) : (writtenOut^[n] d).Acyclic := by
  rwa [Acyclic, fragments_iterate]

/-- The fragments that a fragment reaches, itself included. -/
def reached (d : Document) (name : String) : Set String :=
  {inner | ReflTransGen d.Spreads name inner}

theorem DefinesSpreads.spreads (hd : d.DefinesSpreads) (h : d.Spreads name inner) :
    inner ∈ d.fragments.keys := by
  obtain ⟨g, hg, hinner⟩ := h
  exact hd.fragments g (OrderedMap.mem_values_of_get? hg) inner hinner

theorem DefinesSpreads.reached_subset (hd : d.DefinesSpreads) (hname : name ∈ d.fragments.keys) :
    d.reached name ⊆ {inner | inner ∈ d.fragments.keys} := by
  intro inner h
  rcases ReflTransGen.cases_tail h with rfl | ⟨_, _, hlast⟩
  · exact hname
  · exact hd.spreads hlast

theorem DefinesSpreads.ncard_reached_le (hd : d.DefinesSpreads) (hname : name ∈ d.fragments.keys) :
    (d.reached name).ncard ≤ d.fragments.size := by
  have hfinite : {inner | inner ∈ d.fragments.keys}.Finite := List.finite_toSet _
  have hkeys : {inner | inner ∈ d.fragments.keys}.ncard = d.fragments.size := by
    have htoSet : {inner | inner ∈ d.fragments.keys} = ↑d.fragments.keys.toFinset := by
      ext inner
      simp
    have hnodup : d.fragments.keys.Nodup := d.fragments.nodup
    rw [htoSet, Set.ncard_coe_finset, List.toFinset_card_of_nodup hnodup]
    exact List.length_map _
  exact hkeys ▸ Set.ncard_le_ncard (hd.reached_subset hname) hfinite

/-- The deeper a fragment is in others, the fewer it reaches. -/
theorem DefinesSpreads.ncard_reached_lt (hd : d.DefinesSpreads) (hacyclic : d.Acyclic)
    (hname : name ∈ d.fragments.keys) (h : d.Spreads name inner) :
    (d.reached inner).ncard < (d.reached name).ncard := by
  have hfinite : (d.reached name).Finite :=
    (List.finite_toSet d.fragments.keys).subset (hd.reached_subset hname)
  exact Set.ncard_lt_ncard (reachable_ssubset h (hacyclic name)) hfinite

/-- Each time spreads are written out, what is still spread reaches fewer fragments. -/
theorem DefinesSpreads.mem_keys_of_iterate (hd : d.DefinesSpreads) (hacyclic : d.Acyclic)
    (n : Nat) : ∀ o ∈ (writtenOut^[n] d).operations.definitions,
    ∀ name ∈ Selection.allSpreads o.selections,
      name ∈ d.fragments.keys ∧ (d.reached name).ncard + n ≤ d.fragments.size := by
  induction n with
  | zero =>
    intro o ho name hname
    have hkey := hd.operations o ho name hname
    exact ⟨hkey, hd.ncard_reached_le hkey⟩
  | succ n ih =>
    intro o ho name hname
    rw [Function.iterate_succ_apply', writtenOut, Operations.definitions_writtenOut,
      fragments_iterate] at ho
    obtain ⟨before, hbefore, rfl⟩ := List.mem_map.1 ho
    rcases Selection.mem_allSpreads_allWrittenOut hname with ⟨hname, hnone⟩ |
      ⟨outer, houter, g, hg, hname⟩
    · exact absurd (ih before hbefore name hname).1 (OrderedMap.get?_eq_none_iff.1 hnone)
    · obtain ⟨hkey, hle⟩ := ih before hbefore outer houter
      have hspreads : d.Spreads outer name := ⟨g, hg, hname⟩
      have hlt := hd.ncard_reached_lt hacyclic hkey hspreads
      exact ⟨hd.spreads hspreads, by omega⟩

/-- Nothing is spread any more when spreads have been written out once for each fragment. -/
theorem DefinesSpreads.allSpreads_eq_nil (hd : d.DefinesSpreads) (hacyclic : d.Acyclic) {n : Nat}
    (hn : d.fragments.size ≤ n) {o : OperationDefinition}
    (ho : o ∈ (writtenOut^[n] d).operations.definitions) :
    Selection.allSpreads o.selections = [] := by
  rw [List.eq_nil_iff_forall_not_mem]
  intro name hname
  obtain ⟨hkey, hle⟩ := hd.mem_keys_of_iterate hacyclic n o ho name hname
  have hfinite : (d.reached name).Finite :=
    (List.finite_toSet d.fragments.keys).subset (hd.reached_subset hkey)
  have hpos : 0 < (d.reached name).ncard := (Set.ncard_pos hfinite).2 ⟨name, .refl⟩
  omega

end Document

end ODataGraph.Graphql
