import ODataGraph.Proofs.Graphql.Equality
import ODataGraph.Proofs.Operation.Expansion

/-!
Which requests have an end. All have whose fragments do not reach themselves. A fragment that
reaches itself among its own fields is refused; one that reaches itself through what is selected on
a field is opened again and again, if the types of the fields let it.
-/

namespace ODataGraph

open Relation (ReflTransGen TransGen)

namespace Graphql.Environment

open Normalization (run_bind_of_error run_lift_bind run_mapM_append_cons)

variable {e : Environment} {t t' : Subselection} {name inner : String}

theorem mem_keys_of_spreads (h : e.Spreads name inner) :
    inner ∈ e.fragments.values.flatMap (Selection.allSpreads ·.selections) := by
  obtain ⟨g, hg, hspread⟩ := h
  exact List.mem_flatMap.2 ⟨g, OrderedMap.mem_values_of_get? hg, hspread⟩

theorem finite_spreads (e : Environment) (name : String) :
    {inner | ReflTransGen e.Spreads name inner}.Finite := by
  let spread := e.fragments.values.flatMap (Selection.allSpreads ·.selections)
  refine ((List.finite_toSet spread).insert name).subset fun inner h => ?_
  rcases h.cases_tail with rfl | ⟨_, _, hlast⟩
  · exact Set.mem_insert _ _
  · exact Set.mem_insert_of_mem _ (mem_keys_of_spreads hlast)

/-- Selections have an end if the fragments that they reach have. -/
theorem acc_opens_of_fragments
    (h : ∀ name ∈ Selection.allSpreads t.selections, ∀ inner g t',
      ReflTransGen e.Spreads name inner → e.fragments.get? inner = some g →
      t'.selections ∈ Selection.allNested g.selections → Acc (flip e.Opens) t') :
    Acc (flip e.Opens) t := by
  induction hn : sizeOf t.selections using Nat.strong_induction_on generalizing t with
  | _ n ih =>
    refine ⟨_, fun t' ho => ?_⟩
    obtain ⟨before, f, after, _, _, hfs, _, _, _, hl⟩ := ho
    have hf : f ∈ before ++ f :: after := List.mem_append_right _ List.mem_cons_self
    rcases mem_fieldsOf hfs hf with hmem | ⟨name, hname, inner, g, hr, hg, hmem⟩
    · rw [← hl] at hmem
      obtain ⟨hsize, _, hspreads⟩ := Selection.of_mem_allNested hmem
      exact ih _ (hn ▸ hsize) (fun name hname => h name (hspreads hname)) rfl
    · exact h name hname inner g t' hr hg (hl ▸ hmem)

theorem acc_opens_of_acc_spreads (h : Acc (flip e.Spreads) name)
    (hr : ReflTransGen e.Spreads name inner) {g : Fragment} (hg : e.fragments.get? inner = some g)
    (ht : t.selections ∈ Selection.allNested g.selections) : Acc (flip e.Opens) t := by
  induction h generalizing inner g t with
  | intro name _ ih =>
    rcases hr.cases_head with rfl | ⟨next, hnext, hr⟩
    · refine acc_opens_of_fragments fun next hnext inner g' t' hr hg' ht' => ?_
      have hspreads : e.Spreads name next :=
        ⟨g, hg, (Selection.of_mem_allNested ht).2.2 hnext⟩
      exact ih next hspreads hr hg' ht'
    · exact ih next hnext hr hg ht

/-- Some selections reach a fragment that reaches itself, through fields or not. -/
def Cycles (e : Environment) (l : List Selection) : Prop :=
  ∃ name ∈ Selection.allSpreads l, ∃ inner,
    ReflTransGen e.Spreads name inner ∧ TransGen e.Spreads inner inner

theorem acc_spreads_of_not_cycles {l : List Selection} (h : ¬ e.Cycles l)
    (hname : name ∈ Selection.allSpreads l) : Acc (flip e.Spreads) name :=
  acc_of_acyclic (finite_spreads e name) fun inner hr hcycle => h ⟨name, hname, inner, hr, hcycle⟩

/-- Without a fragment that reaches itself, what is selected on a field has an end. -/
theorem acc_opens_of_mem_fieldsOf {l : List Selection} {fields : List SelectedField}
    {f : SelectedField} (h : ¬ e.Cycles l) (hfields : e.fieldsOf l = .ok fields) (hf : f ∈ fields)
    (scope : Scope) : Acc (flip e.Opens) ⟨scope, f.selections⟩ := by
  rcases mem_fieldsOf hfields hf with hmem | ⟨name, hname, inner, g, hr, hg, hmem⟩
  · refine acc_opens_of_fragments fun name hname inner g t' hr hg ht' => ?_
    have hname := (Selection.of_mem_allNested hmem).2.2 hname
    exact acc_opens_of_acc_spreads (acc_spreads_of_not_cycles h hname) hr hg ht'
  · exact acc_opens_of_acc_spreads (acc_spreads_of_not_cycles h hname) hr hg hmem

/-- Among the fields of some selections a fragment is spread within itself. -/
def CyclesHere (e : Environment) (l : List Selection) : Prop :=
  ∃ s ∈ l, ∃ name inner, s.SpreadsHere e.bindings name ∧
    ReflTransGen e.SpreadsHere name inner ∧ TransGen e.SpreadsHere inner inner

theorem CyclesHere.fieldsOf_eq_error {l : List Selection} (h : e.CyclesHere l) :
    ∃ error, e.fieldsOf l = .error error := by
  obtain ⟨s, hmem, name, inner, hs, hr, hcycle⟩ := h
  exact exists_fieldsOf_eq_error hmem hs hr hcycle

theorem CyclesHere.normalize_eq_error (h : e.CyclesHere t.selections) :
    ∃ error, e.normalize t.scope t.selections = some (.error error) := by
  obtain ⟨error, herror⟩ := h.fieldsOf_eq_error
  refine ⟨error, ?_⟩
  rw [normalize_eq]
  exact run_bind_of_error (congrArg some herror)

theorem completeField_eq_error {b : Below} {s scope : Scope} {f : SelectedField}
    {head : FieldHead} {error : RequestError} (hhead : e.headOf s f = .ok head)
    (hb : head.below = some scope) (h : (b scope f.selections).run = some (.error error)) :
    (e.completeField b s f).run = some (.error error) := by
  simp only [completeField, run_lift_bind, hhead, hb]
  exact run_bind_of_error h

/-- What is refused makes refused what opens it. -/
theorem Opens.normalize_eq_error {error : RequestError} (ho : e.Opens t t')
    (h : e.normalize t'.scope t'.selections = some (.error error)) :
    e.normalize t.scope t.selections = some (.error error) := by
  obtain ⟨before, f, after, done, head, hfs, hd, hhead, hb, hl⟩ := ho
  rw [hl] at h
  simp only [normalize_eq, normalizeBy, run_lift_bind, hfs, run_mapM_append_cons hd]
  exact run_bind_of_error (completeField_eq_error hhead hb h)

theorem normalize_eq_error_of_reflTransGen {error : RequestError}
    (hr : ReflTransGen e.Opens t t')
    (h : e.normalize t'.scope t'.selections = some (.error error)) :
    e.normalize t.scope t.selections = some (.error error) := by
  induction hr using ReflTransGen.head_induction_on with
  | refl => exact h
  | head ho _ ih => exact ho.normalize_eq_error ih

end Graphql.Environment

open Graphql (Environment SelectedField Subselection)
open Normalization (run_bind_of_error run_lift_bind run_mapM_append_cons)

/-- What a request selects on the root, and what that refers to. -/
def RawRequest.Asks (request : RawRequest) (env : Environment)
    (selections : List Graphql.Selection) : Prop :=
  ∃ document definition kind bindings,
    Graphql.Document.parse request.query = .ok document ∧
    document.operations.select request.operationName = .ok definition ∧
    definition.kind.root = .ok kind ∧
    definition.bindVariables request.bindings = .ok bindings ∧
    env = ⟨document.fragments, bindings⟩ ∧ selections = definition.selections

namespace OpenedOperation

theorem ofRequest_of_asks {request : RawRequest} {env : Environment}
    {selections : List Graphql.Selection} (h : request.Asks env selections) :
    ∃ kind, ofRequest request = (return ⟨env, kind, ← env.fieldsOf selections⟩) := by
  obtain ⟨document, definition, kind, bindings, hparse, hselect, hkind, hbind, rfl, rfl⟩ := h
  refine ⟨kind, ?_⟩
  rw [ofRequest, hparse]
  simp only [Except.mapError, ofDocument, hselect, hkind, hbind, bind, Except.bind]

theorem asks_of_ofRequest {request : RawRequest} {o : OpenedOperation}
    (h : ofRequest request = .ok o) :
    ∃ selections, request.Asks o.env selections ∧ o.env.fieldsOf selections = .ok o.fields := by
  obtain ⟨document, hparse, h⟩ := bind_eq_ok_iff.1 h
  obtain ⟨definition, hselect, h⟩ := bind_eq_ok_iff.1 h
  obtain ⟨kind, hkind, h⟩ := bind_eq_ok_iff.1 h
  obtain ⟨bindings, hbind, h⟩ := bind_eq_ok_iff.1 h
  obtain ⟨fields, hfields, h⟩ := bind_eq_ok_iff.1 h
  have hparse : Graphql.Document.parse request.query = .ok document := by
    cases hp : Graphql.Document.parse request.query with
    | error error => rw [hp] at hparse; cases hparse
    | ok d => rw [hp] at hparse; cases hparse; rfl
  cases h
  exact ⟨definition.selections,
    ⟨document, definition, kind, bindings, hparse, hselect, hkind, hbind, rfl, rfl⟩, hfields⟩

/-- Normalizing an operation gets to what is selected on one of its root fields. -/
def Opens (o : OpenedOperation) (e : Engine) (t : Subselection) : Prop :=
  ∃ before f after done head, o.fields = before ++ f :: after ∧
    (before.mapM (Operation.completeField e o o.env.normalize)).run = some (.ok done) ∧
    Operation.headOf e o.env o.kind f = .ok head ∧ head.below = some t.scope ∧
    t.selections = f.selections

/-- Normalizing an operation gets to some selections, at any depth. -/
def Reaches (o : OpenedOperation) (e : Engine) (t : Subselection) : Prop :=
  ∃ first, o.Opens e first ∧ ReflTransGen o.env.Opens first t

end OpenedOperation

namespace Operation

variable {e : Engine} {request : RawRequest} {o : OpenedOperation} {t : Subselection}

theorem completeField_eq_none_iff {below : Environment.Below} {f : SelectedField} :
    (completeField e o below f).run = none ↔
      ∃ head scope, headOf e o.env o.kind f = .ok head ∧ head.below = some scope ∧
        (below scope f.selections).run = none := by
  cases hhead : headOf e o.env o.kind f with
  | error error => simp [completeField, hhead]
  | ok head =>
    cases hb : head.below with
    | none => simp [completeField, hhead, hb]
    | some scope => simp [completeField, hhead, hb]

/-- An operation has no end exactly because of what is selected on one of its root fields. -/
theorem ofOpened_eq_none_iff :
    (ofOpened e o o.env.normalize).run = none ↔
      ∃ t, o.Opens e t ∧ o.env.normalize t.scope t.selections = none := by
  have hofOpened : (ofOpened e o o.env.normalize).run = none ↔
      (o.fields.mapM (completeField e o o.env.normalize)).run = none := by
    simp [ofOpened]
  rw [hofOpened, Normalization.run_mapM_eq_none_iff]
  constructor
  · rintro ⟨before, f, after, done, hfields, hd, hf⟩
    obtain ⟨head, scope, hhead, hb, hn⟩ := completeField_eq_none_iff.1 hf
    exact ⟨⟨scope, f.selections⟩, ⟨before, f, after, done, head, hfields, hd, hhead, hb, rfl⟩, hn⟩
  · rintro ⟨t, ⟨before, f, after, done, head, hfields, hd, hhead, hb, hl⟩, hn⟩
    rw [hl] at hn
    have hf := completeField_eq_none_iff.2 ⟨head, t.scope, hhead, hb, hn⟩
    exact ⟨before, f, after, done, hfields, hd, hf⟩

theorem ofOpened_eq_error {error : RequestError} (ho : o.Opens e t)
    (h : o.env.normalize t.scope t.selections = some (.error error)) :
    (ofOpened e o o.env.normalize).run = some (.error error) := by
  obtain ⟨before, f, after, done, head, hfields, hd, hhead, hb, hl⟩ := ho
  rw [hl] at h
  have hf : (completeField e o o.env.normalize f).run = some (.error error) := by
    simp only [completeField, run_lift_bind, hhead, hb]
    exact run_bind_of_error h
  have hmapM : (o.fields.mapM (completeField e o o.env.normalize)).run = some (.error error) := by
    rw [hfields, run_mapM_append_cons hd]
    exact run_bind_of_error hf
  exact run_bind_of_error hmapM

/-- A request has no end exactly if normalizing it gets to selections that are opened within
themselves. -/
theorem ofRequest_eq_none_iff :
    (ofRequest e request).run = none ↔
      ∃ o t, OpenedOperation.ofRequest request = .ok o ∧ o.Reaches e t ∧
        TransGen o.env.Opens t t := by
  cases ho : OpenedOperation.ofRequest request with
  | error error => simp [ofRequest, ho]
  | ok o =>
    have hrun : (ofRequest e request).run = (ofOpened e o o.env.normalize).run := by
      simp [ofRequest, ho]
    rw [hrun, ofOpened_eq_none_iff]
    constructor
    · rintro ⟨first, hopens, hn⟩
      obtain ⟨t, hr, hcycle⟩ := Environment.normalize_eq_none_iff.1 hn
      exact ⟨o, t, rfl, ⟨first, hopens, hr⟩, hcycle⟩
    · rintro ⟨o', t, heq, ⟨first, hopens, hr⟩, hcycle⟩
      cases heq
      exact ⟨first, hopens, Environment.normalize_eq_none_iff.2 ⟨t, hr, hcycle⟩⟩

theorem ofRequest_ne_none_of_not_cycles
    (h : ∀ env selections, request.Asks env selections → ¬ env.Cycles selections) :
    (ofRequest e request).run ≠ none := by
  intro hn
  obtain ⟨o, t, ho, ⟨first, hopens, hr⟩, hcycle⟩ := ofRequest_eq_none_iff.1 hn
  obtain ⟨selections, hasks, hfields⟩ := OpenedOperation.asks_of_ofRequest ho
  obtain ⟨before, f, after, done, head, hsplit, hd, hhead, hb, hl⟩ := hopens
  have hf : f ∈ o.fields := hsplit ▸ List.mem_append_right _ List.mem_cons_self
  have hacc := Environment.acc_opens_of_mem_fieldsOf (h _ _ hasks) hfields hf first.scope
  rw [← hl] at hacc
  exact Environment.normalize_ne_none_of_acc hacc
    (Environment.normalize_eq_none_iff.2 ⟨t, hr, hcycle⟩)

theorem ofRequest_eq_error_of_cyclesHere {env : Environment}
    {selections : List Graphql.Selection} (h : request.Asks env selections)
    (hcycle : env.CyclesHere selections) :
    ∃ error, (ofRequest e request).run = some (.error error) := by
  obtain ⟨kind, ho⟩ := OpenedOperation.ofRequest_of_asks h
  obtain ⟨error, herror⟩ := hcycle.fieldsOf_eq_error
  rw [herror] at ho
  exact ⟨error, run_bind_of_error (congrArg some ho)⟩

theorem ofRequest_eq_error_of_reaches (ho : OpenedOperation.ofRequest request = .ok o)
    (hr : o.Reaches e t) (hcycle : o.env.CyclesHere t.selections) :
    ∃ error, (ofRequest e request).run = some (.error error) := by
  obtain ⟨first, hopens, hr⟩ := hr
  obtain ⟨error, herror⟩ := hcycle.normalize_eq_error
  have hfirst := Environment.normalize_eq_error_of_reflTransGen hr herror
  refine ⟨error, ?_⟩
  simp only [ofRequest, run_lift_bind, ho]
  exact ofOpened_eq_error hopens hfirst

/-- A request comes to an operation or an error exactly if normalizing it gets to nothing that is
opened within itself: surely without fragments that reach themselves, and a fragment that does so
among its own fields is an error, wherever it is spread. -/
theorem ofRequest_ends_iff_not_reopened (e : Engine) (request : RawRequest) :
    ((∃ r, (ofRequest e request).run = some r) ↔
      ∀ o t, OpenedOperation.ofRequest request = .ok o → o.Reaches e t →
        ¬ TransGen o.env.Opens t t) ∧
    ((∀ env selections, request.Asks env selections → ¬ env.Cycles selections) →
      ∃ r, (ofRequest e request).run = some r) ∧
    (∀ env selections, request.Asks env selections → env.CyclesHere selections →
      ∃ error, (ofRequest e request).run = some (.error error)) ∧
    (∀ o t, OpenedOperation.ofRequest request = .ok o → o.Reaches e t →
      o.env.CyclesHere t.selections →
      ∃ error, (ofRequest e request).run = some (.error error)) := by
  refine ⟨?_, fun h => ?_, fun _ _ => ofRequest_eq_error_of_cyclesHere,
    fun _ _ => ofRequest_eq_error_of_reaches⟩
  · rw [← Option.ne_none_iff_exists', ne_eq, ofRequest_eq_none_iff]
    push Not
    rfl
  · exact Option.ne_none_iff_exists'.1 (ofRequest_ne_none_of_not_cycles h)

end Operation

/-! A type that refers to itself is enough for a fragment to be opened again and again. -/

namespace Circular

def node : ObjectType where
  name := "zoo_A"
  service := ⟨"zoo", "http://zoo.test/odata"⟩
  fields := .ofList [("F", { type := .named "A", kind := .navigation })]

def registry : Registry where
  service := node.service
  types := .ofList [("A", .object node)]
  entitySets := .ofList [("zoo_A", "A")]
  queryRoot := {
    name := "zoo", service := node.service
    fields := .ofList [("A", { type := .list (.named "A"), kind := .entitySet })] }
  mutationRoot := { name := "zooMutation", service := node.service }

def engine (client : Path → Http.Client) : Engine where
  client := client
  services := .ofList [("zoo", { registry })]

def request : RawRequest where
  query := "{zoo{A{...f}}} fragment f on zoo_A{F{...f}}"

def spread : List Graphql.Selection := [.spread "f" []]

def entities : List Graphql.Selection := [.field "A" "A" [] [] spread]

def fragment : Graphql.Fragment where
  name := "f"
  condition := "zoo_A"
  selections := [.field "F" "F" [] [] spread]

def document : Graphql.Document where
  operations := .anonymous { kind := .query, selections := [.field "zoo" "zoo" [] [] entities] }
  fragments := ⟨[("f", fragment)], by decide⟩

def opened : OpenedOperation where
  env := ⟨document.fragments, ∅⟩
  kind := .query
  fields := [⟨"zoo", "zoo", [], entities, []⟩]

def roots : Subselection := ⟨.root registry registry.queryRoot, entities⟩

def nodes : Subselection := ⟨⟨registry, "zoo_A", some node, ["A"]⟩, spread⟩

theorem parse_request : Graphql.Document.parse request.query = .ok document := by
  decide +kernel

theorem ofRequest_request : OpenedOperation.ofRequest request = .ok opened := by
  rw [OpenedOperation.ofRequest, parse_request]
  rfl

theorem fieldsOf_spread : opened.env.fieldsOf spread = .ok [⟨"F", "F", [], spread, ["zoo_A"]⟩] := by
  have hspread : opened.env.spreadFields [] [] "f" = .ok [⟨"F", "F", [], spread, ["zoo_A"]⟩] := by
    rw [Environment.spreadFields]
    rfl
  simp only [Environment.fieldsOf, spread, Graphql.Selection.allFields, Graphql.Selection.fields,
    hspread]
  rfl

theorem roots_opens_nodes : opened.env.Opens roots nodes :=
  ⟨[], ⟨"A", "A", [], spread, []⟩, [], [], ⟨{ responseKey := "A", name := "A" }, some nodes.scope⟩,
    rfl, rfl, rfl, rfl, rfl⟩

theorem nodes_opens_nodes : opened.env.Opens nodes nodes :=
  ⟨[], ⟨"F", "F", [], spread, ["zoo_A"]⟩, [], [],
    ⟨{ responseKey := "F", name := "F" }, some nodes.scope⟩, fieldsOf_spread, rfl, rfl, rfl, rfl⟩

theorem opened_opens_roots (client : Path → Http.Client) :
    opened.Opens (engine client) roots :=
  ⟨[], ⟨"zoo", "zoo", [], entities, []⟩, [], [],
    ⟨{ responseKey := "zoo", target := .service { registry } }, some roots.scope⟩,
    rfl, rfl, rfl, rfl, rfl⟩

/-- Whatever the service would answer, the request has no end. -/
theorem ofRequest_eq_none (client : Path → Http.Client) :
    (Operation.ofRequest (engine client) request).run = none := by
  refine Operation.ofRequest_eq_none_iff.2 ⟨opened, nodes, ofRequest_request, ?_, ?_⟩
  · exact ⟨roots, opened_opens_roots client, .single roots_opens_nodes⟩
  · exact .single nodes_opens_nodes

end Circular

theorem not_forall_ofRequest_ends :
    ¬ ∀ (e : Engine) (request : RawRequest), ∃ r, (Operation.ofRequest e request).run = some r := by
  intro h
  obtain ⟨r, hr⟩ := h (Circular.engine fun _ _ => .error .connection) Circular.request
  rw [Circular.ofRequest_eq_none] at hr
  cases hr

end ODataGraph
