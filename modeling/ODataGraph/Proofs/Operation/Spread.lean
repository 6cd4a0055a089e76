import Mathlib.Logic.Relation
import ODataGraph.Operation.Fields
import ODataGraph.Proofs.Sequence

/-!
Where the fields of selections come from: they stand in the selections themselves, or in a fragment
that is spread in them, perhaps by way of others. Selections in which a fragment spreads itself are
refused.
-/

namespace ODataGraph.Graphql

open Relation (ReflTransGen TransGen)

mutual

/-- What is selected on the fields in a selection, at any depth. -/
def Selection.nested : Selection → List (List Selection)
  | .field _ _ _ _ selections => selections :: Selection.allNested selections
  | .inline _ _ selections => Selection.allNested selections
  | .spread _ _ => []

def Selection.allNested : List Selection → List (List Selection)
  | [] => []
  | s :: rest => Selection.nested s ++ Selection.allNested rest

end

mutual

/-- The fragments that are spread in a selection, at any depth. -/
def Selection.spreads : Selection → List String
  | .field _ _ _ _ selections => Selection.allSpreads selections
  | .inline _ _ selections => Selection.allSpreads selections
  | .spread name _ => [name]

def Selection.allSpreads : List Selection → List String
  | [] => []
  | s :: rest => Selection.spreads s ++ Selection.allSpreads rest

end

mutual

/-- What is selected within a selection is smaller, and neither selects nor spreads more. -/
theorem Selection.of_mem_nested {s : Selection} {l : List Selection} (h : l ∈ s.nested) :
    sizeOf l < sizeOf s ∧ Selection.allNested l ⊆ s.nested ∧ Selection.allSpreads l ⊆ s.spreads := by
  cases s with
  | field key name arguments directives selections =>
    rw [Selection.nested, List.mem_cons] at h
    rw [Selection.nested, Selection.spreads, Selection.field.sizeOf_spec]
    rcases h with rfl | h
    · exact ⟨by omega, List.subset_cons_self _ _, List.Subset.refl _⟩
    · obtain ⟨hsize, hnested, hspreads⟩ := Selection.of_mem_allNested h
      exact ⟨by omega, List.subset_cons_of_subset _ hnested, hspreads⟩
  | inline condition directives selections =>
    have h : l ∈ Selection.allNested selections := h
    obtain ⟨hsize, hnested, hspreads⟩ := Selection.of_mem_allNested h
    rw [Selection.inline.sizeOf_spec]
    exact ⟨by omega, hnested, hspreads⟩
  | spread name directives => cases h

theorem Selection.of_mem_allNested {l' l : List Selection} (h : l ∈ Selection.allNested l') :
    sizeOf l < sizeOf l' ∧ Selection.allNested l ⊆ Selection.allNested l' ∧
      Selection.allSpreads l ⊆ Selection.allSpreads l' := by
  cases l' with
  | nil => cases h
  | cons s rest =>
    rw [Selection.allNested, List.mem_append] at h
    rw [Selection.allNested, Selection.allSpreads, List.cons.sizeOf_spec]
    rcases h with h | h
    · obtain ⟨hsize, hnested, hspreads⟩ := Selection.of_mem_nested h
      exact ⟨by omega, List.subset_append_of_subset_left _ hnested,
        List.subset_append_of_subset_left _ hspreads⟩
    · obtain ⟨hsize, hnested, hspreads⟩ := Selection.of_mem_allNested h
      exact ⟨by omega, List.subset_append_of_subset_right _ hnested,
        List.subset_append_of_subset_right _ hspreads⟩

end

variable {b : Bindings} {f : SelectedField}
  {spread : List String → String → Except RequestError (List SelectedField)}

mutual

/-- A field of a selection is written there, or in a fragment that is spread there. -/
theorem Selection.mem_fields {s : Selection} {fields : List SelectedField}
    {conditions : List String} (h : s.fields b spread conditions = .ok fields) (hf : f ∈ fields) :
    f.selections ∈ s.nested ∨
      ∃ name ∈ s.spreads, ∃ cs fs, spread cs name = .ok fs ∧ f ∈ fs := by
  cases s with
  | field key name arguments directives selections =>
    obtain ⟨included, _, h⟩ := bind_eq_ok_iff.1 h
    cases included with
    | false => cases h; cases hf
    | true =>
      cases h
      cases List.mem_singleton.1 hf
      exact .inl List.mem_cons_self
  | inline condition directives selections =>
    obtain ⟨included, _, h⟩ := bind_eq_ok_iff.1 h
    cases included with
    | false => cases h; cases hf
    | true => exact Selection.mem_allFields h hf
  | spread name directives =>
    obtain ⟨included, _, h⟩ := bind_eq_ok_iff.1 h
    cases included with
    | false => cases h; cases hf
    | true => exact .inr ⟨name, List.mem_singleton.2 rfl, _, _, h, hf⟩

theorem Selection.mem_allFields {l : List Selection} {fields : List SelectedField}
    {conditions : List String} (h : Selection.allFields b spread conditions l = .ok fields)
    (hf : f ∈ fields) :
    f.selections ∈ Selection.allNested l ∨
      ∃ name ∈ Selection.allSpreads l, ∃ cs fs, spread cs name = .ok fs ∧ f ∈ fs := by
  cases l with
  | nil => cases h; cases hf
  | cons s rest =>
    obtain ⟨first, hs, h⟩ := bind_eq_ok_iff.1 h
    obtain ⟨others, hr, h⟩ := bind_eq_ok_iff.1 h
    cases h
    rw [Selection.allNested, Selection.allSpreads]
    simp only [List.mem_append] at hf ⊢
    rcases hf with hf | hf
    · rcases Selection.mem_fields hs hf with h | ⟨name, hn, h⟩
      · exact .inl (.inl h)
      · exact .inr ⟨name, .inl hn, h⟩
    · rcases Selection.mem_allFields hr hf with h | ⟨name, hn, h⟩
      · exact .inl (.inr h)
      · exact .inr ⟨name, .inr hn, h⟩

end

/-- A selection spreads a fragment among its own fields, and no directive keeps it from that. -/
inductive Selection.SpreadsHere (b : Bindings) (name : String) : Selection → Prop
  | spread {directives} : Directive.included b directives = .ok true →
      SpreadsHere b name (.spread name directives)
  | inline {condition directives selections s} : Directive.included b directives = .ok true →
      s ∈ selections → SpreadsHere b name s →
      SpreadsHere b name (.inline condition directives selections)

theorem Selection.exists_fields_of_mem {l : List Selection} {s : Selection}
    {conditions : List String} {fields : List SelectedField}
    (h : Selection.allFields b spread conditions l = .ok fields) (hs : s ∈ l) :
    ∃ fs, s.fields b spread conditions = .ok fs := by
  induction l generalizing fields with
  | nil => cases hs
  | cons a rest ih =>
    obtain ⟨first, ha, h⟩ := bind_eq_ok_iff.1 h
    obtain ⟨others, hr, _⟩ := bind_eq_ok_iff.1 h
    rcases List.mem_cons.1 hs with rfl | hs
    · exact ⟨first, ha⟩
    · exact ih hr hs

theorem Selection.SpreadsHere.exists_spread {s : Selection} {name : String}
    (hs : s.SpreadsHere b name) {conditions : List String} {fields : List SelectedField}
    (h : s.fields b spread conditions = .ok fields) : ∃ cs fs, spread cs name = .ok fs := by
  induction hs generalizing conditions fields with
  | spread hd =>
    rw [Selection.fields, hd] at h
    exact ⟨conditions, fields, h⟩
  | inline hd hmem _ ih =>
    rw [Selection.fields, hd] at h
    obtain ⟨fs, hfs⟩ := Selection.exists_fields_of_mem h hmem
    exact ih hfs

namespace Environment

variable {e : Environment} {name inner : String} {spreading conditions : List String}
  {fields : List SelectedField}

/-- The definition of a fragment spreads another, at any depth of fields. -/
def Spreads (e : Environment) (name inner : String) : Prop :=
  ∃ g, e.fragments.get? name = some g ∧ inner ∈ Selection.allSpreads g.selections

/-- A fragment spreads another among its own fields. -/
def SpreadsHere (e : Environment) (name inner : String) : Prop :=
  ∃ g, e.fragments.get? name = some g ∧ ∃ s ∈ g.selections, s.SpreadsHere e.bindings inner

theorem spreadFields_eq_ok (h : e.spreadFields spreading conditions name = .ok fields) :
    name ∉ spreading ∧ ∃ g, e.fragments.get? name = some g ∧
      Selection.allFields e.bindings (e.spreadFields (name :: spreading))
        (conditions ++ [g.condition]) g.selections = .ok fields := by
  rw [spreadFields] at h
  split at h
  · cases h
  · split at h
    · exact ⟨by simpa using ‹¬ spreading.contains name = true›, _, ‹_›, h⟩
    · cases h

theorem mem_spreadFields (h : e.spreadFields spreading conditions name = .ok fields)
    (hf : f ∈ fields) :
    ∃ inner g, ReflTransGen e.Spreads name inner ∧ e.fragments.get? inner = some g ∧
      f.selections ∈ Selection.allNested g.selections := by
  induction spreading, conditions, name using spreadFields.induct e generalizing fields with
  | case1 spreading conditions name hc =>
    obtain ⟨hn, _⟩ := spreadFields_eq_ok h
    exact absurd (by simpa using hc) hn
  | case2 spreading conditions name hc g hg ih =>
    obtain ⟨_, g', hg', hfields⟩ := spreadFields_eq_ok h
    cases hg.symm.trans hg'
    rcases Selection.mem_allFields hfields hf with hf | ⟨next, hnext, cs, fs, hfs, hf⟩
    · exact ⟨name, g, .refl, hg, hf⟩
    · obtain ⟨inner, g'', hreach, hinner⟩ := ih cs next hfs hf
      exact ⟨inner, g'', .head ⟨g, hg, hnext⟩ hreach, hinner⟩
  | case3 spreading conditions name hc hg =>
    obtain ⟨_, g, hg', _⟩ := spreadFields_eq_ok h
    rw [hg] at hg'
    cases hg'

/-- A field of selections is written there, or in a fragment that they reach. -/
theorem mem_fieldsOf {l : List Selection} (h : e.fieldsOf l = .ok fields) (hf : f ∈ fields) :
    f.selections ∈ Selection.allNested l ∨
      ∃ name ∈ Selection.allSpreads l, ∃ inner g, ReflTransGen e.Spreads name inner ∧
        e.fragments.get? inner = some g ∧ f.selections ∈ Selection.allNested g.selections := by
  rcases Selection.mem_allFields h hf with h | ⟨name, hname, cs, fs, hfs, hf⟩
  · exact .inl h
  · exact .inr ⟨name, hname, mem_spreadFields hfs hf⟩

theorem exists_spreadFields_of_spreadsHere
    (h : e.spreadFields spreading conditions name = .ok fields) (hs : e.SpreadsHere name inner) :
    ∃ cs fs, e.spreadFields (name :: spreading) cs inner = .ok fs := by
  obtain ⟨_, g, hg, hfields⟩ := spreadFields_eq_ok h
  obtain ⟨g', hg', s, hmem, hs⟩ := hs
  cases hg.symm.trans hg'
  obtain ⟨fs, hfs⟩ := Selection.exists_fields_of_mem hfields hmem
  exact hs.exists_spread hfs

/-- Where the fields of a fragment are known, none that it reaches among its own fields is being
spread around it, or reaches itself so. -/
theorem not_mem_of_spreadsHere (h : e.spreadFields spreading conditions name = .ok fields)
    (hr : ReflTransGen e.SpreadsHere name inner) :
    inner ∉ spreading ∧ ¬ TransGen e.SpreadsHere inner inner := by
  induction spreading, conditions, name using spreadFields.induct e generalizing fields with
  | case1 spreading conditions name hc =>
    obtain ⟨hn, _⟩ := spreadFields_eq_ok h
    exact absurd (by simpa using hc) hn
  | case2 spreading conditions name hc g hg ih =>
    obtain ⟨hn, _⟩ := spreadFields_eq_ok h
    rcases hr.cases_head with rfl | ⟨next, hnext, hr⟩
    · refine ⟨hn, fun hcycle => ?_⟩
      obtain ⟨next, hnext, hback⟩ := TransGen.head'_iff.1 hcycle
      obtain ⟨cs, fs, hfs⟩ := exists_spreadFields_of_spreadsHere h hnext
      exact (ih cs next hfs hback).1 List.mem_cons_self
    · obtain ⟨cs, fs, hfs⟩ := exists_spreadFields_of_spreadsHere h hnext
      obtain ⟨hmem, hcycle⟩ := ih cs next hfs hr
      exact ⟨fun hin => hmem (List.mem_cons_of_mem _ hin), hcycle⟩
  | case3 spreading conditions name hc hg =>
    obtain ⟨_, g, hg', _⟩ := spreadFields_eq_ok h
    rw [hg] at hg'
    cases hg'

/-- Selections that reach a fragment which reaches itself, all among their own fields, are
refused. -/
theorem exists_fieldsOf_eq_error {l : List Selection} {s : Selection} (hmem : s ∈ l)
    (hs : s.SpreadsHere e.bindings name) (hr : ReflTransGen e.SpreadsHere name inner)
    (hcycle : TransGen e.SpreadsHere inner inner) : ∃ error, e.fieldsOf l = .error error := by
  cases h : e.fieldsOf l with
  | error error => exact ⟨error, rfl⟩
  | ok fields =>
    obtain ⟨fs, hfs⟩ := Selection.exists_fields_of_mem h hmem
    obtain ⟨cs, fs', hname⟩ := hs.exists_spread hfs
    exact absurd hcycle (not_mem_of_spreadsHere hname hr).2

end Environment

end ODataGraph.Graphql
