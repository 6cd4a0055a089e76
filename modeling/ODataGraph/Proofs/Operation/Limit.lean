import ODataGraph.Operation.Root
import ODataGraph.Proofs.Operation.Spread

/-!
Whatever a request asks for stands in a document within limits. So do the fields that its
selections come to once their fragments are opened.
-/

namespace ODataGraph

namespace Graphql

def Selection.WithinLimits (l : List Selection) : Prop :=
  ∃ depth, Selection.checkAll depth l = .ok ()

structure SelectedField.WithinLimits (f : SelectedField) : Prop where
  arguments : Value.checkMembers f.arguments = .ok ()
  selections : Selection.WithinLimits f.selections

/-- All fragments stand in a document within limits. -/
def Environment.WithinLimits (e : Environment) : Prop :=
  ∀ name g, e.fragments.get? name = some g → Selection.WithinLimits g.selections

variable {b : Bindings} {f : SelectedField}
  {spread : List String → String → Except RequestError (List SelectedField)}

theorem Selection.check_field {depth : Nat} {responseKey name : String}
    {arguments : List (String × Value)} {directives : List Directive} {selections : List Selection}
    (h : (Selection.field responseKey name arguments directives selections).check depth = .ok ()) :
    Value.checkMembers arguments = .ok () ∧ Selection.WithinLimits selections := by
  rw [Selection.check] at h
  obtain ⟨_, harguments, h⟩ := bind_eq_ok_iff.1 h
  obtain ⟨_, _, h⟩ := bind_eq_ok_iff.1 h
  refine ⟨harguments, ?_⟩
  cases selections with
  | nil => exact ⟨0, rfl⟩
  | cons s rest =>
    cases depth with
    | zero => cases h
    | succ depth => exact ⟨depth, h⟩

theorem Selection.check_inline {depth : Nat} {condition : Option String}
    {directives : List Directive} {selections : List Selection}
    (h : (Selection.inline condition directives selections).check depth = .ok ()) :
    Selection.WithinLimits selections := by
  rw [Selection.check] at h
  obtain ⟨_, _, h⟩ := bind_eq_ok_iff.1 h
  cases depth with
  | zero => cases h
  | succ depth => exact ⟨depth, h⟩

mutual

theorem Selection.withinLimits_of_mem_fields
    (hspread : ∀ cs name fs, spread cs name = .ok fs → ∀ f ∈ fs, f.WithinLimits) {s : Selection}
    {depth : Nat} (hs : s.check depth = .ok ()) {fields : List SelectedField}
    {conditions : List String}
    (h : s.fields b spread conditions = .ok fields) (hf : f ∈ fields) : f.WithinLimits := by
  cases s with
  | field key name arguments directives selections =>
    obtain ⟨included, _, h⟩ := bind_eq_ok_iff.1 h
    cases included with
    | false => cases h; cases hf
    | true =>
      cases h
      cases List.mem_singleton.1 hf
      obtain ⟨harguments, hselections⟩ := Selection.check_field hs
      exact ⟨harguments, hselections⟩
  | inline condition directives selections =>
    obtain ⟨included, _, h⟩ := bind_eq_ok_iff.1 h
    cases included with
    | false => cases h; cases hf
    | true =>
      obtain ⟨depth, hselections⟩ := Selection.check_inline hs
      exact Selection.withinLimits_of_mem_allFields hspread hselections h hf
  | spread name directives =>
    obtain ⟨included, _, h⟩ := bind_eq_ok_iff.1 h
    cases included with
    | false => cases h; cases hf
    | true => exact hspread _ name _ h f hf

theorem Selection.withinLimits_of_mem_allFields
    (hspread : ∀ cs name fs, spread cs name = .ok fs → ∀ f ∈ fs, f.WithinLimits)
    {l : List Selection} {depth : Nat} (hl : Selection.checkAll depth l = .ok ())
    {fields : List SelectedField} {conditions : List String}
    (h : Selection.allFields b spread conditions l = .ok fields)
    (hf : f ∈ fields) : f.WithinLimits := by
  cases l with
  | nil => cases h; cases hf
  | cons s rest =>
    obtain ⟨_, hs, hrest⟩ := bind_eq_ok_iff.1 hl
    obtain ⟨first, hfirst, h⟩ := bind_eq_ok_iff.1 h
    obtain ⟨others, hothers, h⟩ := bind_eq_ok_iff.1 h
    cases h
    rcases List.mem_append.1 hf with hf | hf
    · exact Selection.withinLimits_of_mem_fields hspread hs hfirst hf
    · exact Selection.withinLimits_of_mem_allFields hspread hrest hothers hf

end

namespace Environment

variable {e : Environment} {fields : List SelectedField}

theorem WithinLimits.of_mem_spreadFields (he : e.WithinLimits) {spreading conditions : List String}
    {name : String} (h : e.spreadFields spreading conditions name = .ok fields) (hf : f ∈ fields) :
    f.WithinLimits := by
  induction spreading, conditions, name using spreadFields.induct e generalizing f fields with
  | case1 spreading conditions name hc =>
    obtain ⟨hn, _⟩ := spreadFields_eq_ok h
    exact absurd (by simpa using hc) hn
  | case2 spreading conditions name hc g hg ih =>
    obtain ⟨_, g', hg', hfields⟩ := spreadFields_eq_ok h
    cases hg.symm.trans hg'
    obtain ⟨depth, hdepth⟩ := he name g hg
    exact Selection.withinLimits_of_mem_allFields (fun cs name fs hfs f => ih cs name hfs) hdepth
      hfields hf
  | case3 spreading conditions name hc hg =>
    obtain ⟨_, g, hg', _⟩ := spreadFields_eq_ok h
    rw [hg] at hg'
    cases hg'

theorem WithinLimits.of_mem_fieldsOf (he : e.WithinLimits) {l : List Selection}
    (hl : Selection.WithinLimits l) (h : e.fieldsOf l = .ok fields) (hf : f ∈ fields) :
    f.WithinLimits := by
  obtain ⟨depth, hdepth⟩ := hl
  exact Selection.withinLimits_of_mem_allFields
    (fun _ _ _ hfs _ => he.of_mem_spreadFields hfs) hdepth h hf

end Environment

/-! ### Documents -/

def Operations.definitions : Operations → List OperationDefinition
  | .anonymous o => [o]
  | .named operations => operations.values

theorem Operations.mem_definitions_of_add {o o' : OperationDefinition} {before : Option Operations}
    {after : Operations} (h : Operations.add o before = .ok after) (ho : o' ∈ after.definitions) :
    o' = o ∨ ∃ operations ∈ before, o' ∈ operations.definitions := by
  have hinsert : ∀ (m : OrderedMap String OperationDefinition) name,
      o' ∈ (m.insert name o).values → o' = o ∨ o' ∈ m.values := by
    intro m name hmem
    obtain ⟨⟨key, value⟩, hentry, rfl⟩ := List.mem_map.1 hmem
    rw [OrderedMap.mem_entries_iff, OrderedMap.get?_insert] at hentry
    split at hentry
    · exact .inl (Option.some.inj hentry).symm
    · exact .inr (OrderedMap.mem_values_of_get? hentry)
  rcases before with _ | ⟨_ | operations⟩
  · rw [Operations.add] at h
    cases h
    cases hname : o.name with
    | none =>
      rw [hname] at ho
      exact .inl (List.mem_singleton.1 ho)
    | some name =>
      rw [hname] at ho
      rcases hinsert _ name ho with rfl | hmem
      · exact .inl rfl
      · cases hmem
  · cases h
  · rw [Operations.add] at h
    split at h
    · split at h
      · cases h
      · cases h
        exact (hinsert _ _ ho).imp id fun hmem => ⟨_, rfl, hmem⟩
    · cases h

theorem Operations.mem_definitions_of_select {name : Option String} {operations : Operations}
    {o : OperationDefinition} (h : operations.select name = .ok o) :
    o ∈ operations.definitions := by
  cases operations with
  | anonymous o' =>
    cases name with
    | none =>
      cases h
      exact List.mem_singleton_self _
    | some name => cases h
  | named operations =>
    cases name with
    | some name =>
      rw [Operations.select] at h
      cases hget : operations.get? name with
      | none =>
        rw [hget] at h
        cases h
      | some o' =>
        rw [hget] at h
        cases h
        exact OrderedMap.mem_values_of_get? hget
    | none =>
      rw [Operations.select] at h
      split at h
      · rename_i hvalues
        cases h
        rw [definitions, hvalues]
        exact List.mem_singleton_self _
      · cases h

/-- All that is selected in a document is within limits. -/
structure Document.WithinLimits (document : Document) : Prop where
  operations : ∀ o ∈ document.operations.definitions, Selection.WithinLimits o.selections
  fragments : ∀ name g, document.fragments.get? name = some g → Selection.WithinLimits g.selections

theorem Document.withinLimits_of_collect {operations : Option Operations}
    {fragments : OrderedMap String Fragment} {definitions : List Definition} {document : Document}
    (h : Document.collect operations fragments definitions = .ok document)
    (hdefinitions : ∀ d ∈ definitions, d.check = .ok ())
    (hoperations : ∀ before ∈ operations, ∀ o ∈ before.definitions,
      Selection.WithinLimits o.selections)
    (hfragments : ∀ name g, fragments.get? name = some g → Selection.WithinLimits g.selections) :
    document.WithinLimits := by
  induction definitions generalizing operations fragments with
  | nil =>
    cases operations with
    | none => cases h
    | some operations =>
      cases h
      exact ⟨hoperations operations rfl, hfragments⟩
  | cons d rest ih =>
    obtain ⟨hd, hrest⟩ := List.forall_mem_cons.1 hdefinitions
    cases d with
    | operation o =>
      rw [Document.collect] at h
      obtain ⟨after, hafter, h⟩ := bind_eq_ok_iff.1 h
      refine ih h hrest ?_ hfragments
      rintro _ ⟨⟩ o' ho'
      rcases Operations.mem_definitions_of_add hafter ho' with rfl | ⟨before, hbefore, ho'⟩
      · obtain ⟨_, _, hd⟩ := bind_eq_ok_iff.1 hd
        obtain ⟨_, _, hselections⟩ := bind_eq_ok_iff.1 hd
        exact ⟨maxDepth, hselections⟩
      · exact hoperations before hbefore o' ho'
    | fragment g =>
      rw [Document.collect] at h
      split at h
      · cases h
      · refine ih h hrest hoperations ?_
        intro name g' hg'
        rw [OrderedMap.get?_insert] at hg'
        split at hg'
        · cases hg'
          obtain ⟨_, _, hselections⟩ := bind_eq_ok_iff.1 hd
          exact ⟨maxDepth, hselections⟩
        · exact hfragments name g' hg'

theorem Document.withinLimits_of_parse {text : String} {document : Document}
    (h : Document.parse text = .ok document) : document.WithinLimits := by
  rw [Document.parse] at h
  dsimp only at h
  split at h
  · cases h
  · obtain ⟨_, hcheck, h⟩ := bind_eq_ok_iff.1 h
    exact Document.withinLimits_of_collect h (forM_eq_ok_iff.1 hcheck) nofun nofun

end Graphql

/-- The selections of a request are within limits, and so are its fragments. -/
theorem OpenedOperation.withinLimits_of_ofRequest {request : RawRequest} {o : OpenedOperation}
    (h : OpenedOperation.ofRequest request = .ok o) :
    o.env.WithinLimits ∧ ∀ f ∈ o.fields, f.WithinLimits := by
  obtain ⟨document, hparse, h⟩ := bind_eq_ok_iff.1 h
  have hdocument : document.WithinLimits := by
    cases hp : Graphql.Document.parse request.query with
    | error error =>
      rw [hp] at hparse
      cases hparse
    | ok document' =>
      rw [hp] at hparse
      cases hparse
      exact Graphql.Document.withinLimits_of_parse hp
  obtain ⟨definition, hselect, h⟩ := bind_eq_ok_iff.1 h
  obtain ⟨kind, _, h⟩ := bind_eq_ok_iff.1 h
  obtain ⟨bindings, _, h⟩ := bind_eq_ok_iff.1 h
  obtain ⟨fields, hfields, h⟩ := bind_eq_ok_iff.1 h
  cases h
  have henv : Graphql.Environment.WithinLimits ⟨document.fragments, bindings⟩ := hdocument.fragments
  have hdefinition := Graphql.Operations.mem_definitions_of_select hselect
  exact ⟨henv, fun f => henv.of_mem_fieldsOf (hdocument.operations definition hdefinition) hfields⟩

end ODataGraph
