import ODataGraph.Proofs.Operation.Abbreviation
import ODataGraph.Proofs.Operation.Acceptance
import ODataGraph.Proofs.Operation.Constant

/-!
Documents with constants in place of their variables. Whatever a document comes to with variables
that are bound, it comes to without variables.
-/

namespace ODataGraph

namespace Graphql

def instantiateArguments (σ : String → Value) (arguments : List (String × Value)) :
    List (String × Value) :=
  arguments.map fun a => (a.1, a.2.instantiate σ)

def Directive.instantiate (σ : String → Value) (d : Directive) : Directive :=
  { d with arguments := instantiateArguments σ d.arguments }

mutual

/-- A selection with other values in place of variables, also in what is selected below it. -/
def Selection.instantiate (σ : String → Value) : Selection → Selection
  | .field responseKey name arguments directives selections =>
    .field responseKey name (instantiateArguments σ arguments)
      (directives.map (Directive.instantiate σ)) (Selection.instantiateAll σ selections)
  | .inline condition directives selections =>
    .inline condition (directives.map (Directive.instantiate σ))
      (Selection.instantiateAll σ selections)
  | .spread name directives => .spread name (directives.map (Directive.instantiate σ))

def Selection.instantiateAll (σ : String → Value) : List Selection → List Selection
  | [] => []
  | s :: rest => Selection.instantiate σ s :: Selection.instantiateAll σ rest

end

def Fragment.instantiate (σ : String → Value) (g : Fragment) : Fragment :=
  { g with
    directives := g.directives.map (Directive.instantiate σ)
    selections := Selection.instantiateAll σ g.selections }

/-- An operation with other values in place of variables, of which it defines none. -/
def OperationDefinition.instantiate (σ : String → Value) (o : OperationDefinition) :
    OperationDefinition :=
  { o with
    variableDefinitions := []
    directives := o.directives.map (Directive.instantiate σ)
    selections := Selection.instantiateAll σ o.selections }

def Operations.instantiate (σ : String → Value) : Operations → Operations
  | .anonymous o => .anonymous (o.instantiate σ)
  | .named operations => .named (operations.map fun _ o => o.instantiate σ)

/-- A document with other values in place of variables, in all operations and fragments. -/
def Document.instantiate (σ : String → Value) (d : Document) : Document where
  operations := d.operations.instantiate σ
  fragments := d.fragments.map fun _ g => g.instantiate σ

/-- What a variable of an operation stands for: the provided value, else its default, else null. Of
definitions with one name only the last one counts. -/
def OperationDefinition.constant (o : OperationDefinition) (provided : Bindings) (name : String) :
    Value :=
  match provided.get? name with
  | some value => .ofJson value
  | none => ((o.variableDefinitions.reverse.find? (·.name = name)).bind (·.default)).getD .null

def SelectedField.instantiate (σ : String → Value) (f : SelectedField) : SelectedField :=
  { f with
    arguments := instantiateArguments σ f.arguments
    selections := Selection.instantiateAll σ f.selections }

/-- Fragments with other values in place of variables, and nothing bound. -/
def Environment.instantiate (σ : String → Value) (e : Environment) : Environment where
  fragments := e.fragments.map fun _ g => g.instantiate σ
  bindings := ∅

/-- Variables stand for constants: what they are bound to, these come to without bindings. -/
def Stands (σ : String → Value) (b : Bindings) : Prop :=
  ∀ name j, b.get? name = some j → (σ name).evaluate ∅ = .ok j

variable {σ : String → Value} {b : Bindings}

/-! ### What variables stand for -/

namespace OperationDefinition

variable {o : OperationDefinition} {provided : Bindings} {v : VariableDefinition} {j : Json}

theorem cases_bindVariable (h : bindVariable provided v = .ok j) :
    provided.get? v.name = some j ∨ provided.get? v.name = none ∧
      ((∃ default, v.default = some default ∧ default.evaluate ∅ = .ok j) ∨
        v.default = none ∧ j = .null) := by
  have hchecked : ∀ {r : Except RequestError Json}, (do
      let value ← r
      if value.isNull ∧ !v.type.isNullable then throw (RequestError.missingVariable v.name)
      return value) = .ok j → r = .ok j := by
    intro r h
    obtain ⟨value, hvalue, h⟩ := bind_eq_ok_iff.1 h
    dsimp only at h
    split at h
    · cases h
    · cases h
      exact hvalue
  rw [bindVariable] at h
  split at h
  · rename_i value _ hget
    cases hchecked (r := .ok _) h
    exact .inl hget
  · rename_i default hget hdefault
    exact .inr ⟨hget, .inl ⟨default, hdefault, hchecked h⟩⟩
  · rename_i hget hdefault
    cases hchecked (r := .ok .null) h
    exact .inr ⟨hget, .inr ⟨hdefault, rfl⟩⟩

/-- What is bound comes from the last definition with its name. -/
theorem exists_find?_of_get? (h : o.bindVariables provided = .ok b) {name : String}
    (hget : b.get? name = some j) :
    ∃ v, o.variableDefinitions.reverse.find? (·.name = name) = some v ∧
      bindVariable provided v = .ok j := by
  rw [bindVariables] at h
  generalize o.variableDefinitions = definitions at h ⊢
  induction definitions using List.reverseRecOn generalizing b with
  | nil =>
    cases h
    cases hget
  | append_singleton vs v ih =>
    rw [List.foldlM_append] at h
    obtain ⟨b₀, hb₀, h⟩ := bind_eq_ok_iff.1 h
    obtain ⟨_, h, hpure⟩ := bind_eq_ok_iff.1 h
    cases hpure
    obtain ⟨value, hvalue, h⟩ := bind_eq_ok_iff.1 h
    cases h
    rw [OrderedMap.get?_insert] at hget
    rw [List.reverse_append, List.reverse_singleton, List.singleton_append]
    split at hget
    · rename_i hname
      cases hget
      exact ⟨v, List.find?_cons_of_pos (decide_eq_true hname.symm), hvalue⟩
    · rename_i hname
      rw [List.find?_cons_of_neg (by simpa using Ne.symm hname)]
      exact ih hget hb₀

/-- The constants of an operation stand for its variables. -/
theorem stands_constant (h : o.bindVariables provided = .ok b)
    (hprovided : ∀ name value, provided.get? name = some value → value.HasDistinctKeys) :
    Stands (o.constant provided) b := by
  intro name j hget
  obtain ⟨v, hv, hj⟩ := exists_find?_of_get? h hget
  have hname : v.name = name := by simpa using List.find?_some hv
  subst hname
  rw [constant]
  rcases cases_bindVariable hj with hvalue | ⟨hnone, ⟨default, hdefault, hj⟩ | ⟨hdefault, rfl⟩⟩
  · rw [hvalue]
    exact Value.evaluate_ofJson (hprovided _ _ hvalue)
  · rw [hnone, hv, Option.bind_some, hdefault]
    exact hj
  · rw [hnone, hv, Option.bind_some, hdefault]
    rfl

end OperationDefinition

/-! ### Fields -/

theorem Value.evaluate_of_stands (hσ : Stands σ b) {v : Value} {j : Json}
    (h : v.evaluate b = .ok j) : (v.instantiate σ).evaluate ∅ = .ok j :=
  Value.evaluate_instantiate hσ v h

theorem lookup_instantiateArguments (arguments : List (String × Value)) (name : String) :
    (instantiateArguments σ arguments).lookup name =
      (arguments.lookup name).map (Value.instantiate σ) := by
  induction arguments with
  | nil => rfl
  | cons a rest ih =>
    obtain ⟨key, v⟩ := a
    rw [instantiateArguments, List.map_cons, List.lookup_cons, List.lookup_cons]
    by_cases hkey : name = key
    · simp [hkey]
    · rw [beq_false_of_ne hkey]
      exact ih

/-- Directives that let something stand, or do not, still do so. -/
theorem Directive.included_instantiate (hσ : Stands σ b) {directives : List Directive} {r : Bool}
    (h : included b directives = .ok r) :
    included ∅ (directives.map (Directive.instantiate σ)) = .ok r := by
  induction directives with
  | nil => exact h
  | cons d rest ih =>
    have hname : (d.instantiate σ).name = d.name := rfl
    rw [included] at h
    rw [List.map_cons, included, hname]
    split
    · rename_i hcounts
      rw [if_pos hcounts] at h
      rw [Directive.instantiate, lookup_instantiateArguments]
      cases hif : d.arguments.lookup "if" with
      | none =>
        rw [hif] at h
        cases h
      | some v =>
        rw [hif] at h
        obtain ⟨value, hvalue, h⟩ := bind_eq_ok_iff.1 h
        refine bind_eq_ok_iff.2 ⟨value, Value.evaluate_of_stands hσ hvalue, ?_⟩
        cases value with
        | bool condition =>
          dsimp only at h ⊢
          split
          · rename_i hstands
            rw [if_pos hstands] at h
            exact ih h
          · rename_i hstands
            rw [if_neg hstands] at h
            exact h
        | _ => cases h
    · rename_i hcounts
      rw [if_neg hcounts] at h
      exact ih h

variable {spread spread' : List String → String → Except RequestError (List SelectedField)}

theorem included_bind_instantiate (hσ : Stands σ b)
    {x x' : Except RequestError (List SelectedField)}
    (hx : ∀ fields, x = .ok fields → x' = .ok (fields.map (SelectedField.instantiate σ)))
    {directives : List Directive} {fields : List SelectedField}
    (h : (do if ← Directive.included b directives then x else return []) = .ok fields) :
    (do
      if ← Directive.included ∅ (directives.map (Directive.instantiate σ)) then x' else return []) =
        .ok (fields.map (SelectedField.instantiate σ)) := by
  obtain ⟨stands, hstands, h⟩ := bind_eq_ok_iff.1 h
  refine bind_eq_ok_iff.2 ⟨stands, Directive.included_instantiate hσ hstands, ?_⟩
  cases stands with
  | true => exact hx fields h
  | false =>
    cases h
    rfl

mutual

theorem Selection.fields_instantiate (hσ : Stands σ b)
    (hspread : ∀ conditions name fields, spread conditions name = .ok fields →
      spread' conditions name = .ok (fields.map (SelectedField.instantiate σ)))
    {conditions : List String} {s : Selection} {fields : List SelectedField}
    (h : Selection.fields b spread conditions s = .ok fields) :
    Selection.fields ∅ spread' conditions (s.instantiate σ) =
      .ok (fields.map (SelectedField.instantiate σ)) := by
  cases s with
  | field responseKey name arguments directives selections =>
    refine included_bind_instantiate hσ (fun fields h => ?_) h
    cases h
    rfl
  | inline condition directives selections =>
    exact included_bind_instantiate hσ (fun _ => Selection.allFields_instantiate hσ hspread) h
  | spread name directives => exact included_bind_instantiate hσ (hspread conditions name) h

theorem Selection.allFields_instantiate (hσ : Stands σ b)
    (hspread : ∀ conditions name fields, spread conditions name = .ok fields →
      spread' conditions name = .ok (fields.map (SelectedField.instantiate σ)))
    {conditions : List String} {l : List Selection} {fields : List SelectedField}
    (h : Selection.allFields b spread conditions l = .ok fields) :
    Selection.allFields ∅ spread' conditions (Selection.instantiateAll σ l) =
      .ok (fields.map (SelectedField.instantiate σ)) := by
  cases l with
  | nil =>
    cases h
    rfl
  | cons s rest =>
    obtain ⟨first, hfirst, h⟩ := bind_eq_ok_iff.1 h
    obtain ⟨others, hothers, h⟩ := bind_eq_ok_iff.1 h
    cases h
    have hfirst := Selection.fields_instantiate hσ hspread hfirst
    have hothers := Selection.allFields_instantiate hσ hspread hothers
    rw [List.map_append]
    exact bind_eq_ok_iff.2 ⟨_, hfirst, bind_eq_ok_iff.2 ⟨_, hothers, rfl⟩⟩

end

namespace Environment

variable {e : Environment} {s : Scope} {f : SelectedField} {fields : List SelectedField}

theorem spreadFields_instantiate (hσ : Stands σ e.bindings) {spreading conditions : List String}
    {name : String} (h : e.spreadFields spreading conditions name = .ok fields) :
    (e.instantiate σ).spreadFields spreading conditions name =
      .ok (fields.map (SelectedField.instantiate σ)) := by
  induction spreading, conditions, name using spreadFields.induct e generalizing fields with
  | case1 spreading conditions name hspreading =>
    exact absurd (by simpa using hspreading) (spreadFields_eq_ok h).1
  | case2 spreading conditions name hspreading g hg ih =>
    obtain ⟨hname, g', hg', hfields⟩ := spreadFields_eq_ok h
    cases hg.symm.trans hg'
    have hfragment : (e.instantiate σ).fragments.get? name = some (g.instantiate σ) := by
      rw [instantiate, OrderedMap.get?_map, hg, Option.map_some]
    rw [spreadFields_of_get? hname hfragment]
    exact Selection.allFields_instantiate hσ (fun cs next _ => ih cs next) hfields
  | case3 spreading conditions name hspreading hnone =>
    obtain ⟨_, g, hg, _⟩ := spreadFields_eq_ok h
    cases hnone.symm.trans hg

theorem fieldsOf_instantiate (hσ : Stands σ e.bindings) {l : List Selection}
    (h : e.fieldsOf l = .ok fields) :
    (e.instantiate σ).fieldsOf (Selection.instantiateAll σ l) =
      .ok (fields.map (SelectedField.instantiate σ)) :=
  Selection.allFields_instantiate hσ (fun _ _ _ => spreadFields_instantiate hσ) h

theorem argumentsOf_instantiate (hσ : Stands σ e.bindings) {declared : OrderedMap String Argument}
    {values : OrderedMap String Json} (h : e.argumentsOf declared f = .ok values) :
    (e.instantiate σ).argumentsOf declared (f.instantiate σ) = .ok values := by
  obtain ⟨hknown, ⟨js, hjs, rfl⟩, hrequired⟩ := argumentsOf_eq_ok_iff.1 h
  refine argumentsOf_eq_ok_iff.2 ⟨?_, ⟨js, ?_, rfl⟩, hrequired⟩
  · intro a ha
    obtain ⟨given, hgiven, rfl⟩ := List.mem_map.1 ha
    exact hknown given hgiven
  · refine mapM_map_eq_ok hjs fun a _ j hj => ?_
    obtain ⟨value, hvalue, rfl⟩ := evaluateGiven_eq_ok_iff.1 hj
    exact evaluateGiven_eq_ok_iff.2 ⟨value, Value.evaluate_of_stands hσ hvalue, rfl⟩

theorem isEmpty_instantiateAll (l : List Selection) :
    (Selection.instantiateAll σ l).isEmpty = l.isEmpty := by
  cases l <;> rfl

theorem requireLeaf_instantiate (f : SelectedField) :
    (f.instantiate σ).requireLeaf = f.requireLeaf := by
  simp only [SelectedField.requireLeaf, SelectedField.instantiate, isEmpty_instantiateAll]

theorem scopeBelow_instantiate (r : Registry) (definition : Field) (f : SelectedField) :
    scopeBelow r definition (f.instantiate σ) = scopeBelow r definition f := by
  simp only [scopeBelow, requireLeaf_instantiate]
  simp only [SelectedField.instantiate, isEmpty_instantiateAll]

theorem headOf_instantiate (hσ : Stands σ e.bindings) {head : FieldHead}
    (h : e.headOf s f = .ok head) : (e.instantiate σ).headOf s (f.instantiate σ) = .ok head := by
  have hname : (f.instantiate σ).name = f.name := rfl
  obtain ⟨n, hn, h⟩ := bind_eq_ok_iff.1 h
  refine bind_eq_ok_iff.2 ⟨n, hn, ?_⟩
  dsimp only at h ⊢
  rw [hname, requireLeaf_instantiate]
  split
  · rename_i htypename
    rw [if_pos htypename] at h
    exact h
  · rename_i htypename
    rw [if_neg htypename] at h
    split at h
    · rename_i definition _
      obtain ⟨arguments, harguments, h⟩ := bind_eq_ok_iff.1 h
      refine bind_eq_ok_iff.2 ⟨arguments, argumentsOf_instantiate hσ harguments, ?_⟩
      rw [scopeBelow_instantiate]
      exact h
    · cases h

theorem normalizeTo_instantiate (hσ : Stands σ e.bindings) (depth : Nat) {l : List Selection}
    {selections : List ODataGraph.Selection}
    (h : (e.normalizeTo depth s l).run = some (.ok selections)) :
    ((e.instantiate σ).normalizeTo depth s (Selection.instantiateAll σ l)).run =
      some (.ok selections) := by
  induction depth generalizing s l selections with
  | zero => cases h
  | succ depth ih =>
    obtain ⟨fields, hfields, h⟩ := Normalization.run_bind_eq_ok_iff.1 h
    have hfields := fieldsOf_instantiate hσ (Option.some.inj hfields)
    refine Normalization.run_bind_eq_ok_iff.2 ⟨_, congrArg some hfields, ?_⟩
    rw [Normalization.run_mapM_eq_ok_iff] at h ⊢
    rw [List.forall₂_map_left_iff]
    refine h.imp fun f selection hf => ?_
    obtain ⟨head, hhead, hf⟩ := Normalization.run_bind_eq_ok_iff.1 hf
    have hhead := headOf_instantiate hσ (Option.some.inj hhead)
    refine Normalization.run_bind_eq_ok_iff.2 ⟨head, congrArg some hhead, ?_⟩
    dsimp only at hf ⊢
    split at hf
    · obtain ⟨below, hbelow, hf⟩ := Normalization.run_bind_eq_ok_iff.1 hf
      exact Normalization.run_bind_eq_ok_iff.2 ⟨below, ih hbelow, hf⟩
    · exact hf

/-- What selections come to does not change. -/
theorem normalize_instantiate (hσ : Stands σ e.bindings) {l : List Selection}
    {selections : List ODataGraph.Selection} (h : e.normalize s l = some (.ok selections)) :
    (e.instantiate σ).normalize s (Selection.instantiateAll σ l) = some (.ok selections) := by
  obtain ⟨depth, h⟩ := normalize_eq_some_iff.1 h
  exact normalize_eq_some_iff.2 ⟨depth, normalizeTo_instantiate hσ depth h⟩

end Environment

theorem Operations.select_instantiate (operations : Operations) (name : Option String) :
    (operations.instantiate σ).select name = (operations.select name).map (·.instantiate σ) := by
  cases operations with
  | anonymous o => cases name <;> rfl
  | named operations =>
    cases name with
    | some name =>
      rw [instantiate, select, select, OrderedMap.get?_map]
      cases operations.get? name <;> rfl
    | none =>
      have hvalues : (operations.map fun _ o => o.instantiate σ).values =
          operations.values.map (·.instantiate σ) := by
        simp [OrderedMap.values, OrderedMap.map, Function.comp_def]
      rw [instantiate, select, select, hvalues]
      rcases operations.values with _ | ⟨o, _ | ⟨_, _⟩⟩ <;> rfl

theorem Operations.variableDefinitions_of_instantiate {operations : Operations}
    {o : OperationDefinition} (ho : o ∈ (operations.instantiate σ).definitions) :
    o.variableDefinitions = [] := by
  cases operations with
  | anonymous o' =>
    cases List.mem_singleton.1 ho
    rfl
  | named operations =>
    obtain ⟨e, he, rfl⟩ := List.mem_map.1 ho
    obtain ⟨_, _, rfl⟩ := List.mem_map.1 he
    rfl

end Graphql

namespace Operation

open Graphql (Environment Document OperationDefinition SelectedField Stands)

variable {engine : Engine} {request : RawRequest} {d : Document} {env : Environment}
  {kind : RootKind} {f : SelectedField} {σ : String → Graphql.Value}

theorem serviceHead_instantiate (hσ : Stands σ env.bindings) {s : ExposedService} {head : Head}
    (h : serviceHead env kind s f = .ok head) :
    serviceHead (env.instantiate σ) kind s (f.instantiate σ) = .ok head := by
  have hempty : (f.instantiate σ).selections.isEmpty = f.selections.isEmpty :=
    Environment.isEmpty_instantiateAll _
  rw [serviceHead] at h
  rw [serviceHead, hempty]
  split
  · rename_i hnone
    rw [if_pos hnone] at h
    cases h
  · rename_i hsome
    rw [if_neg hsome] at h
    obtain ⟨arguments, harguments, h⟩ := bind_eq_ok_iff.1 h
    exact bind_eq_ok_iff.2 ⟨arguments, Environment.argumentsOf_instantiate hσ harguments, h⟩

theorem hostHead_instantiate (hσ : Stands σ env.bindings) {host : BoundHostField}
    {s : ExposedService} {head : Head} (h : hostHead env host s f = .ok head) :
    hostHead (env.instantiate σ) host s (f.instantiate σ) = .ok head := by
  obtain ⟨arguments, harguments, h⟩ := bind_eq_ok_iff.1 h
  refine bind_eq_ok_iff.2 ⟨arguments, Environment.argumentsOf_instantiate hσ harguments, ?_⟩
  rw [Environment.scopeBelow_instantiate]
  exact h

theorem headOf_instantiate (hσ : Stands σ env.bindings) {head : Head}
    (h : headOf engine env kind f = .ok head) :
    headOf engine (env.instantiate σ) kind (f.instantiate σ) = .ok head := by
  have hname : (f.instantiate σ).name = f.name := rfl
  have hconditions : (f.instantiate σ).conditions = f.conditions := rfl
  rw [headOf] at h
  rw [headOf, hname, hconditions, Environment.requireLeaf_instantiate]
  split at h
  · cases h
  · split
    · rename_i htypename
      rw [if_pos htypename] at h
      exact h
    · rename_i htypename
      rw [if_neg htypename] at h
      split at h
      · exact serviceHead_instantiate hσ h
      · exact hostHead_instantiate hσ h
      · cases h

theorem ofOpened_instantiate {o : OpenedOperation} (hσ : Stands σ o.env.bindings)
    {operation : Operation} (h : (ofOpened engine o o.env.normalize).run = some (.ok operation)) :
    (ofOpened engine ⟨o.env.instantiate σ, o.kind, o.fields.map (SelectedField.instantiate σ)⟩
      (o.env.instantiate σ).normalize).run = some (.ok operation) := by
  obtain ⟨roots, hroots, h⟩ := Normalization.run_bind_eq_ok_iff.1 h
  refine Normalization.run_bind_eq_ok_iff.2 ⟨roots, ?_, h⟩
  rw [Normalization.run_mapM_eq_ok_iff] at hroots ⊢
  rw [List.forall₂_map_left_iff]
  refine hroots.imp fun f root hf => ?_
  obtain ⟨head, hhead, hf⟩ := Normalization.run_bind_eq_ok_iff.1 hf
  have hhead := headOf_instantiate hσ (Option.some.inj hhead)
  refine Normalization.run_bind_eq_ok_iff.2 ⟨head, congrArg some hhead, ?_⟩
  dsimp only at hf ⊢
  split at hf
  · obtain ⟨below, hbelow, hf⟩ := Normalization.run_bind_eq_ok_iff.1 hf
    have hbelow := Environment.normalize_instantiate hσ hbelow
    exact Normalization.run_bind_eq_ok_iff.2 ⟨below, hbelow, hf⟩
  · exact hf

/-- Whatever a document comes to, it comes to without variables, with their constants written in
place of them. -/
theorem ofDocument_instantiate (hrequest : request.HasDistinctKeys) {operation : Operation}
    (h : (ofDocument engine d request).run = some (.ok operation)) :
    ∃ o, d.operations.select request.operationName = .ok o ∧
      (ofDocument engine (d.instantiate (o.constant request.bindings))
        { request with bindings := ∅ }).run = some (.ok operation) := by
  obtain ⟨opened, hopened, h⟩ := Normalization.run_bind_eq_ok_iff.1 h
  obtain ⟨o, ho, hopened⟩ := bind_eq_ok_iff.1 (Option.some.inj hopened)
  obtain ⟨kind, hkind, hopened⟩ := bind_eq_ok_iff.1 hopened
  obtain ⟨b, hb, hopened⟩ := bind_eq_ok_iff.1 hopened
  obtain ⟨fields, hfields, hopened⟩ := bind_eq_ok_iff.1 hopened
  cases hopened
  have hσ : Stands (o.constant request.bindings) b :=
    OperationDefinition.stands_constant hb hrequest
  have hopened := ofOpened_instantiate hσ h
  refine ⟨o, ho, Normalization.run_bind_eq_ok_iff.2 ⟨_, congrArg some ?_, hopened⟩⟩
  have hselect : (d.instantiate (o.constant request.bindings)).operations.select
      request.operationName = .ok (o.instantiate (o.constant request.bindings)) := by
    rw [Document.instantiate, Graphql.Operations.select_instantiate, ho]
    rfl
  refine bind_eq_ok_iff.2 ⟨_, hselect, bind_eq_ok_iff.2 ⟨kind, hkind, ?_⟩⟩
  refine bind_eq_ok_iff.2 ⟨∅, rfl, bind_eq_ok_iff.2 ⟨_, ?_, rfl⟩⟩
  exact Environment.fieldsOf_instantiate (e := ⟨d.fragments, b⟩) hσ hfields

/-- Variables are only abbreviations. Whatever operation a request comes to, its document comes to
without variables: none is defined or provided any more, and instead of each one stands what it was
provided with, else its default, else null. What is provided has to have distinct keys, as
everything has that is read from a text. -/
theorem ofDocument_instantiate_constant (engine : Engine) :
    (∀ request : RawRequest, request.HasDistinctKeys →
      ∀ operation, (ofRequest engine request).run = some (.ok operation) →
        ∃ d o, Document.parse request.query = .ok d ∧
          d.operations.select request.operationName = .ok o ∧
          (∀ o' ∈ (d.instantiate (o.constant request.bindings)).operations.definitions,
            o'.variableDefinitions = []) ∧
          (ofDocument engine (d.instantiate (o.constant request.bindings))
            { request with bindings := ∅ }).run = some (.ok operation)) ∧
    ∀ text request, RawRequest.parse? text = some request → request.HasDistinctKeys := by
  refine ⟨fun request hrequest operation h => ?_,
    fun _ _ => RawRequest.hasDistinctKeys_of_parse?⟩
  cases hparse : Document.parse request.query with
  | error error =>
    rw [ofRequest, OpenedOperation.ofRequest, hparse] at h
    cases h
  | ok d =>
    rw [ofRequest_eq_ofDocument hparse] at h
    obtain ⟨o, ho, h⟩ := ofDocument_instantiate hrequest h
    exact ⟨d, o, rfl, ho, fun _ => Graphql.Operations.variableDefinitions_of_instantiate, h⟩

end Operation

/-! A field that is selected if a variable says so, and again unless another one does. -/

namespace Switched

def request : RawRequest where
  query := "query($kind:Boolean! $once:Boolean=true)" ++
    "{zoo{__typename @include(if:$kind) again:__typename @skip(if:$once)}}"
  bindings := .ofList [("kind", .bool true)]

def engine : Engine := Circular.engine fun _ _ => .error .connection

def documentWith (definitions : List Graphql.VariableDefinition) (kind once : Graphql.Value) :
    Graphql.Document where
  operations := .anonymous {
    kind := .query
    variableDefinitions := definitions
    selections := [.field "zoo" "zoo" [] [] [
      .field "__typename" "__typename" [] [⟨"include", [("if", kind)]⟩] [],
      .field "again" "__typename" [] [⟨"skip", [("if", once)]⟩] []]] }
  fragments := ∅

def definitions : List Graphql.VariableDefinition := [
  { name := "kind", type := .named "Boolean" false },
  { name := "once", type := .named "Boolean" true, default := some (.bool true) }]

def document : Graphql.Document := documentWith definitions (.variable "kind") (.variable "once")

def opened : OpenedOperation where
  env := ⟨∅, .ofList [("kind", .bool true), ("once", .bool true)]⟩
  kind := .query
  fields := [⟨"zoo", "zoo", [], [
    .field "__typename" "__typename" [] [⟨"include", [("if", .variable "kind")]⟩] [],
    .field "again" "__typename" [] [⟨"skip", [("if", .variable "once")]⟩] []], []⟩]

def operation : Operation where
  kind := .query
  fields := [
    { responseKey := "zoo", target := .service { registry := Circular.registry }
      fields := [{ responseKey := "__typename", name := "__typename" }] }]

theorem parse_request : Graphql.Document.parse request.query = .ok document := by
  decide +kernel

theorem ofRequest_request :
    (Operation.ofRequest engine request).run = some (.ok operation) := by
  have hopened : OpenedOperation.ofRequest request = .ok opened := by
    rw [OpenedOperation.ofRequest, parse_request]
    rfl
  exact Operation.ofOpened_extends_ofRequest hopened 1 _ rfl

theorem hasDistinctKeys_request : request.HasDistinctKeys := by
  intro name value hget
  cases List.mem_singleton.1 (OrderedMap.mem_of_get?_ofList hget)
  exact .bool true

end Switched

/-- With true in place of both variables the same field is selected. -/
theorem ofDocument_of_switched : Switched.request.HasDistinctKeys ∧
    (Operation.ofRequest Switched.engine Switched.request).run = some (.ok Switched.operation) ∧
    (Operation.ofDocument Switched.engine (Switched.documentWith [] (.bool true) (.bool true))
      { Switched.request with bindings := ∅ }).run = some (.ok Switched.operation) := by
  have hdistinct := Switched.hasDistinctKeys_request
  have hrequest := Switched.ofRequest_request
  obtain ⟨d, o, hparse, ho, _, h⟩ := (Operation.ofDocument_instantiate_constant Switched.engine).1
    Switched.request hdistinct Switched.operation hrequest
  cases Switched.parse_request.symm.trans hparse
  cases ho
  exact ⟨hdistinct, hrequest, h⟩

end ODataGraph
