import Mathlib.Data.Set.Finite.Lattice
import ODataGraph.Proofs.Operation.Approximation
import ODataGraph.Proofs.Operation.Spread
import ODataGraph.Proofs.Reachability

/-!
When normalizing has an end. What is selected on a field is opened once the fields before it are
known; there is no end to that exactly if something is opened again within itself, and for this some
fragment has to reach itself.
-/

namespace ODataGraph.Graphql

open Normalization (Extends)
open Relation (ReflTransGen TransGen)

/-- Selections in the scope that they are normalized in. -/
structure Subselection where
  scope : Scope
  selections : List Selection

namespace Environment

variable {e : Environment} {t t' : Subselection}

/-- Normalizing some selections gets to what is selected on one of their fields: the fields before
it come to selections, and it is not refused itself. -/
def Opens (e : Environment) (t t' : Subselection) : Prop :=
  ∃ before f after done head,
    e.fieldsOf t.selections = .ok (before ++ f :: after) ∧
    (before.mapM (e.completeField e.normalize t.scope)).run = some (.ok done) ∧
    e.headOf t.scope f = .ok head ∧ head.below = some t'.scope ∧ t'.selections = f.selections

theorem completeField_eq_none_iff {b : Below} {s : Scope} {f : SelectedField} :
    (e.completeField b s f).run = none ↔
      ∃ head scope, e.headOf s f = .ok head ∧ head.below = some scope ∧
        (b scope f.selections).run = none := by
  constructor
  · intro h
    obtain h | ⟨head, hhead, h⟩ := Normalization.run_bind_eq_none_iff.1 h
    · cases h
    · have hhead : e.headOf s f = .ok head := Option.some.inj hhead
      cases hb : head.below with
      | none => rw [hb] at h; cases h
      | some scope =>
        rw [hb] at h
        obtain h | ⟨_, _, h⟩ := Normalization.run_bind_eq_none_iff.1 h
        · exact ⟨head, scope, hhead, hb, h⟩
        · cases h
  · rintro ⟨head, scope, hhead, hb, h⟩
    refine Normalization.run_bind_eq_none_iff.2 (.inr ⟨head, congrArg some hhead, ?_⟩)
    rw [hb]
    exact Normalization.run_bind_eq_none_iff.2 (.inl h)

/-- Selections have no end exactly because of something that they open. -/
theorem normalize_eq_none_iff_exists_opens :
    e.normalize t.scope t.selections = none ↔
      ∃ t', e.Opens t t' ∧ e.normalize t'.scope t'.selections = none := by
  rw [normalize_eq]
  constructor
  · intro h
    obtain h | ⟨fs, hfs, h⟩ := Normalization.run_bind_eq_none_iff.1 h
    · cases h
    · obtain ⟨before, f, after, done, rfl, hd, hf⟩ := Normalization.run_mapM_eq_none_iff.1 h
      obtain ⟨head, scope, hhead, hb, hn⟩ := completeField_eq_none_iff.1 hf
      exact ⟨⟨scope, f.selections⟩,
        ⟨before, f, after, done, head, Option.some.inj hfs, hd, hhead, hb, rfl⟩, hn⟩
  · rintro ⟨t', ⟨before, f, after, done, head, hfs, hd, hhead, hb, hl⟩, hn⟩
    rw [hl] at hn
    have hf := completeField_eq_none_iff.2 ⟨head, t'.scope, hhead, hb, hn⟩
    refine Normalization.run_bind_eq_none_iff.2 (.inr ⟨_, congrArg some hfs, ?_⟩)
    exact Normalization.run_mapM_eq_none_iff.2 ⟨before, f, after, done, rfl, hd, hf⟩

/-- What opens something comes to a result only with a result for that, a level less deep. -/
theorem Opens.exists_lt {depth : Nat} (ho : e.Opens t t')
    (h : (e.normalizeTo depth t.scope t.selections).run ≠ none) :
    ∃ m < depth, (e.normalizeTo m t'.scope t'.selections).run ≠ none := by
  obtain ⟨before, f, after, done, head, hfs, hd, hhead, hb, hl⟩ := ho
  cases depth with
  | zero => exact absurd rfl h
  | succ depth =>
    refine ⟨depth, Nat.lt_succ_self depth, fun hn => h ?_⟩
    rw [hl] at hn
    refine Normalization.run_bind_eq_none_iff.2 (.inr ⟨_, congrArg some hfs, ?_⟩)
    have hf : (e.completeField (e.normalizeTo depth) t.scope f).run = none :=
      completeField_eq_none_iff.2 ⟨head, t'.scope, hhead, hb, hn⟩
    -- the fields before come to the same, if they come to anything this deep
    have hbefore : Extends (before.mapM (e.completeField (e.normalizeTo depth) t.scope))
        (before.mapM (e.completeField e.normalize t.scope)) :=
      .mapM (completeField_extends (normalizeTo_extends_normalize depth) t.scope) before
    cases hr : (before.mapM (e.completeField (e.normalizeTo depth) t.scope)).run with
    | none =>
      rw [List.mapM_append]
      exact Normalization.run_bind_eq_none_iff.2 (.inl hr)
    | some r =>
      cases (hbefore r hr).symm.trans hd
      exact Normalization.run_mapM_eq_none_iff.2 ⟨before, f, after, done, rfl, hr, hf⟩

theorem exists_lt_of_transGen {depth : Nat} (ho : TransGen e.Opens t t')
    (h : (e.normalizeTo depth t.scope t.selections).run ≠ none) :
    ∃ m < depth, (e.normalizeTo m t'.scope t'.selections).run ≠ none := by
  induction ho with
  | single ho => exact ho.exists_lt h
  | tail _ ho ih =>
    obtain ⟨m, hm, h⟩ := ih
    obtain ⟨k, hk, h⟩ := ho.exists_lt h
    exact ⟨k, hk.trans hm, h⟩

theorem normalizeTo_eq_none_of_transGen (ho : TransGen e.Opens t t) (depth : Nat) :
    (e.normalizeTo depth t.scope t.selections).run = none := by
  induction depth using Nat.strong_induction_on with
  | _ depth ih =>
    by_contra h
    obtain ⟨m, hm, h⟩ := exists_lt_of_transGen ho h
    exact h (ih m hm)

theorem normalize_eq_none_of_transGen (ho : TransGen e.Opens t t) :
    e.normalize t.scope t.selections = none := by
  cases h : e.normalize t.scope t.selections with
  | none => rfl
  | some r =>
    obtain ⟨depth, hd⟩ := normalize_eq_some_iff.1 h
    rw [normalizeTo_eq_none_of_transGen ho] at hd
    cases hd

/-- Only the types of a registry have fields to select. -/
theorem key?_of_scopeBelow {r : Registry} {definition : Field} {f : SelectedField}
    {scope : Scope} (h : scopeBelow r definition f = .ok (some scope)) :
    ∃ key, definition.type.key? = some key ∧ Scope.ofType? r key = some scope := by
  rw [scopeBelow] at h
  split at h
  · rename_i s hs
    split at h
    · cases h
    · cases h
      exact Option.bind_eq_some_iff.1 hs
  · obtain ⟨_, _, h⟩ := bind_eq_ok_iff.1 h
    cases h

/-- What a field comes to apart from what is selected on it: `__typename`, or a field of the object
that is left within its fragments. -/
theorem cases_headOf {f : SelectedField} {head : FieldHead} (h : e.headOf s f = .ok head) :
    ∃ n, s.narrow f.conditions = .ok n ∧ head.selection.name = f.name ∧
      head.selection.condition = s.condition n ∧ head.selection.fields = [] ∧
      (f.name = typenameField ∧ head.below = none ∨
        f.name ≠ typenameField ∧ ∃ definition,
          n.object.bind (·.fields.get? f.name) = some definition ∧
          scopeBelow s.registry definition f = .ok head.below) := by
  obtain ⟨n, hn, h⟩ := bind_eq_ok_iff.1 h
  refine ⟨n, hn, ?_⟩
  split at h
  · rename_i hname
    obtain ⟨_, _, h⟩ := bind_eq_ok_iff.1 h
    cases h
    exact ⟨rfl, rfl, rfl, .inl ⟨hname, rfl⟩⟩
  · rename_i hname
    split at h
    · rename_i definition hdefinition
      obtain ⟨arguments, _, h⟩ := bind_eq_ok_iff.1 h
      obtain ⟨below, hbelow, h⟩ := bind_eq_ok_iff.1 h
      cases h
      exact ⟨rfl, rfl, rfl, .inr ⟨hname, definition, hdefinition, hbelow⟩⟩
    · cases h

theorem ofType?_of_headOf {scope : Scope} {f : SelectedField} {head : FieldHead}
    (h : e.headOf s f = .ok head) (hb : head.below = some scope) :
    ∃ key, Scope.ofType? s.registry key = some scope := by
  obtain ⟨n, _, _, _, _, ⟨_, hnone⟩ | ⟨_, definition, _, hbelow⟩⟩ := cases_headOf h
  · rw [hnone] at hb
    cases hb
  · obtain ⟨key, _, hkey⟩ := key?_of_scopeBelow (hbelow.trans (congrArg _ hb))
    exact ⟨key, hkey⟩

/-- The scopes of the types of a registry. -/
def scopes (r : Registry) : List Scope := r.types.keys.filterMap (Scope.ofType? r)

theorem mem_scopes {r : Registry} {key : String} {scope : Scope}
    (h : Scope.ofType? r key = some scope) : scope ∈ scopes r ∧ scope.registry = r := by
  obtain ⟨type, htype, hscope⟩ := Option.bind_eq_some_iff.1 h
  have hkey : key ∈ r.types.keys :=
    OrderedMap.mem_keys_iff.2 ⟨type, (Option.filter_eq_some_iff.1 htype).1⟩
  refine ⟨List.mem_filterMap.2 ⟨key, hkey, h⟩, ?_⟩
  cases hscope
  rfl

/-- What is selected on fields, in some selections or in a fragment. -/
def selectable (e : Environment) (l : List Selection) : List (List Selection) :=
  Selection.allNested l ++ e.fragments.values.flatMap (Selection.allNested ·.selections)

theorem mem_selectable_of_fragment {name : String} {g : Fragment} {l l' : List Selection}
    (hg : e.fragments.get? name = some g) (h : l' ∈ Selection.allNested g.selections) :
    l' ∈ e.selectable l := by
  refine List.mem_append_right _ (List.mem_flatMap.2 ⟨g, ?_, h⟩)
  exact OrderedMap.mem_values_of_get? hg

theorem Opens.mem_selectable (h : e.Opens t t') :
    t'.selections ∈ e.selectable t.selections := by
  obtain ⟨before, f, after, _, _, hfs, _, _, _, hl⟩ := h
  have hf : f ∈ before ++ f :: after := List.mem_append_right _ List.mem_cons_self
  rw [hl]
  rcases mem_fieldsOf hfs hf with h | ⟨_, _, _, g, _, hg, h⟩
  · exact List.mem_append_left _ h
  · exact mem_selectable_of_fragment hg h

theorem selectable_subset {l l' : List Selection} (h : l' ∈ e.selectable l) :
    e.selectable l' ⊆ e.selectable l := by
  intro m hm
  rcases List.mem_append.1 hm with hm | hm
  · rcases List.mem_append.1 h with h | h
    · exact List.mem_append_left _ ((Selection.of_mem_allNested h).2.1 hm)
    · obtain ⟨g, hg, h⟩ := List.mem_flatMap.1 h
      have hm := (Selection.of_mem_allNested h).2.1 hm
      exact List.mem_append_right _ (List.mem_flatMap.2 ⟨g, hg, hm⟩)
  · exact List.mem_append_right _ hm

theorem Opens.mem_scopes (h : e.Opens t t') :
    t'.scope ∈ scopes t.scope.registry ∧ t'.scope.registry = t.scope.registry := by
  obtain ⟨_, _, _, _, _, _, _, hhead, hb, _⟩ := h
  obtain ⟨key, hkey⟩ := ofType?_of_headOf hhead hb
  exact Environment.mem_scopes hkey

theorem mem_of_reflTransGen (h : ReflTransGen e.Opens t t') :
    t' = t ∨ t'.scope ∈ scopes t.scope.registry ∧ t'.selections ∈ e.selectable t.selections := by
  induction h using ReflTransGen.head_induction_on with
  | refl => exact .inl rfl
  | head ho _ ih =>
    obtain ⟨hscope, hregistry⟩ := ho.mem_scopes
    rcases ih with rfl | ⟨hs, hl⟩
    · exact .inr ⟨hscope, ho.mem_selectable⟩
    · exact .inr ⟨hregistry ▸ hs, selectable_subset ho.mem_selectable hl⟩

/-- Selections get to finitely many others, whatever their fragments. -/
theorem finite_opens (e : Environment) (t : Subselection) :
    {t' | ReflTransGen e.Opens t t'}.Finite := by
  let within := Set.image2 Subselection.mk {s | s ∈ scopes t.scope.registry}
    {l | l ∈ e.selectable t.selections}
  have hfin : (insert t within).Finite :=
    .insert t (.image2 _ (List.finite_toSet _) (List.finite_toSet _))
  refine hfin.subset fun t' h => ?_
  rcases mem_of_reflTransGen h with rfl | ⟨hs, hl⟩
  · exact Set.mem_insert _ _
  · exact Set.mem_insert_of_mem _ ⟨_, hs, _, hl, rfl⟩

theorem normalize_ne_none_of_acc (h : Acc (flip e.Opens) t) :
    e.normalize t.scope t.selections ≠ none := by
  induction h with
  | intro t _ ih =>
    intro hn
    obtain ⟨t', ho, hn⟩ := normalize_eq_none_iff_exists_opens.1 hn
    exact ih t' ho hn

/-- Selections have no end exactly if they get to some that are opened within themselves. -/
theorem normalize_eq_none_iff :
    e.normalize t.scope t.selections = none ↔
      ∃ t', ReflTransGen e.Opens t t' ∧ TransGen e.Opens t' t' := by
  constructor
  · intro hn
    by_contra hc
    push Not at hc
    exact normalize_ne_none_of_acc (acc_of_acyclic (finite_opens e t) hc) hn
  · rintro ⟨t', hr, hcycle⟩
    induction hr using ReflTransGen.head_induction_on with
    | refl => exact normalize_eq_none_of_transGen hcycle
    | head ho _ ih => exact normalize_eq_none_iff_exists_opens.2 ⟨_, ho, ih⟩

end Environment

end ODataGraph.Graphql
