import ODataGraph.Proofs.Operation.Termination
import ODataGraph.Proofs.Operation.WrittenOut

/-!
Fragments are abbreviations. What a document with fragments comes to is what it comes to with their
selections written where they are spread, once or again and again until nothing is spread any more.
-/

namespace ODataGraph

theorem Normalization.lift_bind_congr {α β γ : Type} {R : α → β → Prop}
    {x : Except RequestError α} {y : Except RequestError β} {f : α → Normalization γ}
    {g : β → Normalization γ} (h : Likewise R x y) (hfg : ∀ a b, R a b → f a = g b) :
    (lift x >>= f) = (lift y >>= g) := by
  cases h with
  | ok h => exact hfg _ _ h
  | error error => rfl

namespace Graphql

open Relation (ReflTransGen TransGen)

/-! ### The fields -/

section Fields

variable {b : Bindings} {R : SelectedField → SelectedField → Prop}
  {spread spread' : List String → String → Except RequestError (List SelectedField)}

/-- Directives that say the same let both stand or neither. -/
theorem likewise_included {included : Except RequestError Bool}
    {x x' : Except RequestError (List SelectedField)} (h : Likewise (List.Forall₂ R) x x') :
    Likewise (List.Forall₂ R) (do if ← included then x else return [])
      (do if ← included then x' else return []) := by
  cases included with
  | error error => exact .error error
  | ok included =>
    cases included with
    | false => exact .ok .nil
    | true => exact h

theorem likewise_cons {conditions conditions' : List String} {s s' : Selection}
    {rest rest' : List Selection}
    (hs : Likewise (List.Forall₂ R) (s.fields b spread conditions)
      (s'.fields b spread' conditions'))
    (hrest : Likewise (List.Forall₂ R) (Selection.allFields b spread conditions rest)
      (Selection.allFields b spread' conditions' rest')) :
    Likewise (List.Forall₂ R) (Selection.allFields b spread conditions (s :: rest))
      (Selection.allFields b spread' conditions' (s' :: rest')) :=
  hs.bind fun _ _ hfields => hrest.bind fun _ _ hothers => .ok (List.rel_append hfields hothers)

mutual

/-- The fields of a selection depend on the fragments that are spread in it alone. -/
theorem Selection.fields_congr {s : Selection}
    (h : ∀ name ∈ s.spreads, ∀ cs, spread cs name = spread' cs name)
    (conditions : List String) : s.fields b spread conditions = s.fields b spread' conditions := by
  cases s with
  | field => rfl
  | inline condition directives selections =>
    rw [Selection.fields, Selection.fields, Selection.allFields_congr h]
  | spread name directives =>
    rw [Selection.fields, Selection.fields, h name List.mem_cons_self]

theorem Selection.allFields_congr {l : List Selection}
    (h : ∀ name ∈ Selection.allSpreads l, ∀ cs, spread cs name = spread' cs name)
    (conditions : List String) :
    Selection.allFields b spread conditions l = Selection.allFields b spread' conditions l := by
  cases l with
  | nil => rfl
  | cons s rest =>
    have hs := Selection.fields_congr (s := s)
      (fun name hname => h name (List.mem_append_left _ hname)) conditions
    have hrest := Selection.allFields_congr (l := rest)
      (fun name hname => h name (List.mem_append_right _ hname)) conditions
    rw [Selection.allFields, Selection.allFields, hs, hrest]

end

end Fields

/-- The same selections, in which nothing is spread. -/
def Selection.Unspread (l l' : List Selection) : Prop := l = l' ∧ Selection.allSpreads l = []

namespace Environment

variable {e : Environment} {name : String} {spreading conditions : List String} {g : Fragment}

theorem spreadFields_of_get? (hname : name ∉ spreading) (hg : e.fragments.get? name = some g) :
    e.spreadFields spreading conditions name =
      Selection.allFields e.bindings (e.spreadFields (name :: spreading))
        (conditions ++ [g.condition]) g.selections := by
  rw [spreadFields, dif_neg (by simpa using hname)]
  split
  · rename_i g' hg'
    cases hg.symm.trans hg'
    rfl
  · rename_i hnone
    cases hg.symm.trans hnone

theorem spreadFields_of_none (hname : name ∉ spreading) (hnone : e.fragments.get? name = none) :
    e.spreadFields spreading conditions name = .error (.fragmentNotFound name) := by
  rw [spreadFields, dif_neg (by simpa using hname)]
  split
  · rename_i g hg
    cases hnone.symm.trans hg
  · rfl

/-- The fields of a fragment are the same whatever is being spread around it, if it does not reach
that. -/
theorem spreadFields_eq (he : e.Acyclic) (name : String) :
    ∀ spreading conditions, (∀ outer ∈ spreading, ¬ ReflTransGen e.Spreads name outer) →
      e.spreadFields spreading conditions name = e.spreadFields [] conditions name := by
  have hacc : Acc (flip e.Spreads) name :=
    acc_of_acyclic (finite_spreads e name) fun inner _ => he inner
  induction hacc with
  | intro name _ ih =>
    intro spreading conditions hspreading
    have hname : name ∉ spreading := fun hmem => hspreading name hmem .refl
    cases hg : e.fragments.get? name with
    | none => rw [spreadFields_of_none hname hg, spreadFields_of_none List.not_mem_nil hg]
    | some g =>
      rw [spreadFields_of_get? hname hg, spreadFields_of_get? List.not_mem_nil hg]
      refine Selection.allFields_congr (fun inner hinner cs => ?_) _
      have hspreads : e.Spreads name inner := ⟨g, hg, hinner⟩
      have hback : ¬ ReflTransGen e.Spreads inner name := fun hback =>
        he name (.head' hspreads hback)
      rw [ih inner hspreads (name :: spreading), ih inner hspreads [name]]
      · simpa using hback
      · rintro outer (_ | ⟨_, houter⟩)
        · exact hback
        · exact fun hreach => hspreading outer houter (.head hspreads hreach)

/-- The fields of a fragment are those of its selections. -/
theorem spreadFields_eq_allFields (he : e.Acyclic) (hg : e.fragments.get? name = some g) :
    e.spreadFields [] conditions name =
      Selection.allFields e.bindings (e.spreadFields []) (conditions ++ [g.condition])
        g.selections := by
  rw [spreadFields_of_get? List.not_mem_nil hg]
  refine Selection.allFields_congr (fun inner hinner cs => ?_) _
  refine spreadFields_eq he inner [name] cs ?_
  simp only [List.mem_singleton, forall_eq]
  exact fun hback => he name (.head' ⟨g, hg, hinner⟩ hback)

variable {l l' : List Selection}

/-- With spreads written out there are the same fields, in the same order, but for what is selected
on them. -/
theorem likewise_allFields (he : e.Acyclic) (h : Selection.WritesOut e.fragments l l')
    (conditions : List String) :
    Likewise (List.Forall₂ (SelectedField.WritesOut e.fragments))
      (Selection.allFields e.bindings (e.spreadFields []) conditions l)
      (Selection.allFields e.bindings (e.spreadFields []) conditions l') := by
  induction h generalizing conditions with
  | nil => exact .ok .nil
  | @field responseKey name arguments _ selections _ _ _ hselections _ _ ihrest =>
    refine likewise_cons (likewise_included (.ok (.cons ?_ .nil))) (ihrest conditions)
    exact .intro (f := ⟨responseKey, name, arguments, selections, conditions⟩) hselections
  | inline _ _ ihselections ihrest =>
    exact likewise_cons (likewise_included (ihselections _)) (ihrest conditions)
  | spread _ ihrest =>
    refine likewise_cons (.refl (fun fields => ?_) _) (ihrest conditions)
    exact List.forall₂_same.2 fun f _ => .refl f
  | @replaced _ _ _ _ _ _ hg _ _ ihselections ihrest =>
    refine likewise_cons (likewise_included ?_) (ihrest conditions)
    rw [spreadFields_eq_allFields he hg]
    exact ihselections _

/-- A field is the same in another environment, but for what is selected on it. -/
structure Alike (e e' : Environment) (R : List Selection → List Selection → Prop)
    (f f' : SelectedField) : Prop where
  head : ∀ s, e.headOf s f = e'.headOf s f'
  rootHead : ∀ engine kind, Operation.headOf engine e kind f = Operation.headOf engine e' kind f'
  selections : R f.selections f'.selections

variable {e' : Environment} {R : List Selection → List Selection → Prop}

/-- Of the environment only the bindings count for a field, and of its selections only whether there
are any. -/
theorem alike_of_isEmpty (hb : e'.bindings = e.bindings) {f : SelectedField} {l : List Selection}
    (hl : l.isEmpty = f.selections.isEmpty) (h : R f.selections l) :
    Alike e e' R f { f with selections := l } where
  head s := by
    simp only [headOf, SelectedField.requireLeaf, scopeBelow, argumentsOf, hb, hl]
  rootHead engine kind := by
    simp only [Operation.headOf, Operation.serviceHead, Operation.hostHead,
      SelectedField.requireLeaf, scopeBelow, argumentsOf, hb, hl]
  selections := h

theorem completeField_congr {below below' : Below} {s : Scope} {f f' : SelectedField}
    (hhead : e.headOf s f = e'.headOf s f')
    (hbelow : ∀ scope, below scope f.selections = below' scope f'.selections) :
    e.completeField below s f = e'.completeField below' s f' := by
  simp only [completeField, hhead, hbelow]

theorem normalizeTo_congr
    (hR : ∀ l l', R l l' → Likewise (List.Forall₂ (Alike e e' R)) (e.fieldsOf l) (e'.fieldsOf l'))
    (depth : Nat) : ∀ s l l', R l l' → e.normalizeTo depth s l = e'.normalizeTo depth s l' := by
  induction depth with
  | zero =>
    intro _ _ _ _
    rfl
  | succ depth ih =>
    intro s l l' h
    refine Normalization.lift_bind_congr (hR l l' h) fun fields fields' hfields => ?_
    refine mapM_congr (hfields.imp fun f f' hf => ?_)
    exact completeField_congr (hf.head s) fun scope => ih scope _ _ hf.selections

/-- Selections come to the same in two environments if their fields are alike, and what is selected
on these in turn. -/
theorem normalize_congr
    (hR : ∀ l l', R l l' → Likewise (List.Forall₂ (Alike e e' R)) (e.fieldsOf l) (e'.fieldsOf l'))
    (s : Scope) {l l' : List Selection} (h : R l l') : e.normalize s l = e'.normalize s l' := by
  refine Option.ext fun r => ?_
  rw [normalize_eq_some_iff, normalize_eq_some_iff]
  simp only [normalizeTo_congr hR _ s l l' h]

theorem likewise_fieldsOf (he : e.Acyclic) (h : Selection.WritesOut e.fragments l l') :
    Likewise (List.Forall₂ (Alike e e (Selection.WritesOut e.fragments))) (e.fieldsOf l)
      (e.fieldsOf l') := by
  refine (likewise_allFields he h []).imp fun fields fields' hfields => hfields.imp ?_
  rintro f _ ⟨hf⟩
  exact alike_of_isEmpty rfl hf.isEmpty hf

/-- Where nothing is spread it does not count which fragments there are. -/
theorem likewise_fieldsOf_of_unspread (hb : e'.bindings = e.bindings)
    (h : Selection.Unspread l l') :
    Likewise (List.Forall₂ (Alike e e' Selection.Unspread)) (e.fieldsOf l) (e'.fieldsOf l') := by
  obtain ⟨rfl, hl⟩ := h
  have hsame : e'.fieldsOf l = e.fieldsOf l := by
    rw [fieldsOf, fieldsOf, hb]
    exact Selection.allFields_congr (by simp [hl]) []
  rw [hsame]
  cases hfields : e.fieldsOf l with
  | error error => exact .error error
  | ok fields =>
    refine .ok (List.forall₂_same.2 fun f hf => ?_)
    refine alike_of_isEmpty hb rfl ⟨rfl, ?_⟩
    rcases mem_fieldsOf hfields hf with hnested | ⟨name, hname, _⟩
    · exact List.subset_nil.1 (hl ▸ (Selection.of_mem_allNested hnested).2.2)
    · rw [hl] at hname
      cases hname

end Environment

end Graphql

/-! ### The operations -/

namespace Operation

open Graphql (Environment Document)
open Normalization (lift)

variable {engine : Engine} {request : RawRequest} {d d' : Document}

/-- What a request comes to whose query is a document. -/
def ofDocument (engine : Engine) (d : Document) (request : RawRequest) :
    Normalization Operation := do
  let o ← lift (OpenedOperation.ofDocument d request)
  ofOpened engine o o.env.normalize

theorem ofRequest_eq_ofDocument (h : Document.parse request.query = .ok d) :
    ofRequest engine request = ofDocument engine d request := by
  rw [ofRequest, OpenedOperation.ofRequest, h]
  rfl

theorem ofOpened_congr {R : List Graphql.Selection → List Graphql.Selection → Prop}
    {o o' : OpenedOperation} (hkind : o.kind = o'.kind)
    (hR : ∀ l l', R l l' → Likewise (List.Forall₂ (Environment.Alike o.env o'.env R))
      (o.env.fieldsOf l) (o'.env.fieldsOf l'))
    (hfields : List.Forall₂ (Environment.Alike o.env o'.env R) o.fields o'.fields) :
    ofOpened engine o o.env.normalize = ofOpened engine o' o'.env.normalize := by
  have hcomplete : ∀ f f', Environment.Alike o.env o'.env R f f' →
      completeField engine o o.env.normalize f = completeField engine o' o'.env.normalize f' := by
    intro f f' hf
    have hbelow := fun s => Environment.normalize_congr hR s hf.selections
    simp only [completeField, hkind, hf.rootHead, hbelow]
  rw [ofOpened, ofOpened, mapM_congr (hfields.imp hcomplete), hkind]

/-- Documents come to the same if in their operations the fields are alike, and what is selected on
these in turn. -/
theorem ofDocument_congr {R : List Graphql.Selection → List Graphql.Selection → Prop}
    (hselect : Likewise (fun o o' => o'.kind = o.kind ∧
        o'.variableDefinitions = o.variableDefinitions ∧ R o.selections o'.selections)
      (d.operations.select request.operationName) (d'.operations.select request.operationName))
    (hR : ∀ b l l', R l l' → Likewise
      (List.Forall₂ (Environment.Alike ⟨d.fragments, b⟩ ⟨d'.fragments, b⟩ R))
      (Environment.fieldsOf ⟨d.fragments, b⟩ l) (Environment.fieldsOf ⟨d'.fragments, b⟩ l')) :
    ofDocument engine d request = ofDocument engine d' request := by
  refine Normalization.lift_bind_congr (R := fun o o' =>
    ofOpened engine o o.env.normalize = ofOpened engine o' o'.env.normalize) ?_ fun _ _ h => h
  refine hselect.bind fun o o' ⟨hkind, hvariables, hselections⟩ => ?_
  rw [hkind, Graphql.OperationDefinition.bindVariables, Graphql.OperationDefinition.bindVariables,
    hvariables]
  refine Likewise.bind (R := Eq) (.refl (fun _ => rfl) _) fun kind _ hkind => ?_
  refine Likewise.bind (R := Eq) (.refl (fun _ => rfl) _) fun b _ hb => ?_
  subst hkind hb
  refine (hR b _ _ hselections).bind fun fields fields' hfields => .ok ?_
  exact ofOpened_congr rfl (hR b) hfields

theorem ofDocument_writtenOut (hacyclic : d.Acyclic) :
    ofDocument engine d.writtenOut request = ofDocument engine d request := by
  symm
  refine ofDocument_congr (R := Graphql.Selection.WritesOut d.fragments) ?_ fun b _ _ h =>
    Environment.likewise_fieldsOf (e := ⟨d.fragments, b⟩) hacyclic h
  rw [Document.writtenOut, Graphql.Operations.select_writtenOut]
  cases d.operations.select request.operationName with
  | error error => exact .error error
  | ok o => exact .ok ⟨rfl, rfl, Graphql.Selection.writesOut_allWrittenOut o.selections⟩

theorem ofDocument_iterate (hacyclic : d.Acyclic) (n : Nat) :
    ofDocument engine (Document.writtenOut^[n] d) request = ofDocument engine d request := by
  induction n with
  | zero => rfl
  | succ n ih =>
    rw [Function.iterate_succ_apply', ofDocument_writtenOut (hacyclic.iterate n), ih]

/-- Without spreads a document needs no fragments. -/
theorem ofDocument_of_allSpreads
    (h : ∀ o ∈ d.operations.definitions, Graphql.Selection.allSpreads o.selections = [])
    (fragments : OrderedMap String Graphql.Fragment) :
    ofDocument engine { d with fragments } request = ofDocument engine d request := by
  symm
  refine ofDocument_congr (R := Graphql.Selection.Unspread) ?_ fun _ _ _ h =>
    Environment.likewise_fieldsOf_of_unspread rfl h
  cases ho : d.operations.select request.operationName with
  | error error => exact .error error
  | ok o => exact .ok ⟨rfl, rfl, rfl, h o (Graphql.Operations.mem_definitions_of_select ho)⟩

theorem exists_ofDocument (hacyclic : d.Acyclic) (engine : Engine) (request : RawRequest) :
    ∃ r, (ofDocument engine d request).run = some r := by
  rw [← Option.ne_none_iff_exists']
  intro hnone
  rw [ofDocument, Normalization.run_lift_bind] at hnone
  cases ho : OpenedOperation.ofDocument d request with
  | error error =>
    rw [ho] at hnone
    cases hnone
  | ok o =>
    rw [ho] at hnone
    obtain ⟨t, ⟨before, f, after, _, _, hsplit, _, _, _, hl⟩, hn⟩ := ofOpened_eq_none_iff.1 hnone
    have hf : f ∈ o.fields := hsplit ▸ List.mem_append_right _ List.mem_cons_self
    obtain ⟨definition, _, ho⟩ := bind_eq_ok_iff.1 ho
    obtain ⟨kind, _, ho⟩ := bind_eq_ok_iff.1 ho
    obtain ⟨b, _, ho⟩ := bind_eq_ok_iff.1 ho
    obtain ⟨fields, hfields, ho⟩ := bind_eq_ok_iff.1 ho
    cases ho
    have hcycles : ¬ Environment.Cycles ⟨d.fragments, b⟩ definition.selections := by
      rintro ⟨_, _, inner, _, hcycle⟩
      exact hacyclic inner hcycle
    have hacc := Environment.acc_opens_of_mem_fieldsOf hcycles hfields hf t.scope
    rw [← hl] at hacc
    exact Environment.normalize_ne_none_of_acc hacc hn

/-- Fragments are only abbreviations. What is spread can be written out any number of times, and
when that has been done once for each fragment, there are no spreads left and the fragments can go;
at every point the document comes to the same operation or the same error. -/
theorem ofDocument_iterate_writtenOut (hdefined : d.DefinesSpreads) (hacyclic : d.Acyclic)
    (engine : Engine) (request : RawRequest) :
    (∃ r, (ofDocument engine d request).run = some r ∧
      ∀ n, (ofDocument engine (Document.writtenOut^[n] d) request).run = some r ∧
        (d.fragments.size ≤ n →
          (∀ o ∈ (Document.writtenOut^[n] d).operations.definitions,
            Graphql.Selection.allSpreads o.selections = []) ∧
          (ofDocument engine { Document.writtenOut^[n] d with fragments := ∅ } request).run =
            some r)) ∧
    (Document.parse request.query = .ok d →
      ofRequest engine request = ofDocument engine d request) := by
  obtain ⟨r, hr⟩ := exists_ofDocument hacyclic engine request
  refine ⟨⟨r, hr, fun n => ?_⟩, ofRequest_eq_ofDocument⟩
  have hn : (ofDocument engine (Document.writtenOut^[n] d) request).run = some r := by
    rw [ofDocument_iterate hacyclic, hr]
  refine ⟨hn, fun hsize => ?_⟩
  have hspreads := fun o ho => hdefined.allSpreads_eq_nil (o := o) hacyclic hsize ho
  exact ⟨hspreads, by rw [ofDocument_of_allSpreads hspreads, hn]⟩

end Operation

/-! Three fragments, each spread in the one before, the last of them also within a field. -/

namespace Abbreviated

def request : RawRequest where
  query := "{zoo{...roots}} fragment roots on zoo{A{...node}} " ++
    "fragment node on zoo_A{F{...leaf} ...leaf} fragment leaf on zoo_A{__typename}"

def engine : Engine := Circular.engine fun _ _ => .error .connection

def typename : List Graphql.Selection := [.field "__typename" "__typename" [] [] []]

def roots : Graphql.Fragment where
  name := "roots"
  condition := "zoo"
  selections := [.field "A" "A" [] [] [.spread "node" []]]

def node : Graphql.Fragment where
  name := "node"
  condition := "zoo_A"
  selections := [.field "F" "F" [] [] [.spread "leaf" []], .spread "leaf" []]

def leaf : Graphql.Fragment where
  name := "leaf"
  condition := "zoo_A"
  selections := typename

def document : Graphql.Document where
  operations := .anonymous {
    kind := .query, selections := [.field "zoo" "zoo" [] [] [.spread "roots" []]] }
  fragments := ⟨[("roots", roots), ("node", node), ("leaf", leaf)], by decide⟩

def plainDocument : Graphql.Document where
  operations := .anonymous {
    kind := .query
    selections := [.field "zoo" "zoo" [] [] [.inline (some "zoo") [] [.field "A" "A" [] []
      [.inline (some "zoo_A") [] [
        .field "F" "F" [] [] [.inline (some "zoo_A") [] typename],
        .inline (some "zoo_A") [] typename]]]]] }
  fragments := ∅

theorem iterate_writtenOut :
    { Graphql.Document.writtenOut^[3] document with fragments := ∅ } = plainDocument := by
  rfl

theorem parse_request : Graphql.Document.parse request.query = .ok document := by
  decide +kernel

theorem definesSpreads_document : document.DefinesSpreads where
  operations := by decide
  fragments := by decide

/-- How many fragments are spread within one, one in the other. -/
def height (name : String) : Nat :=
  if name = "roots" then 2 else if name = "node" then 1 else 0

theorem height_lt_of_spreads {name inner : String} (h : document.Spreads name inner) :
    height inner < height name := by
  obtain ⟨g, hg, hinner⟩ := h
  have hentry := OrderedMap.mem_entries_iff.2 hg
  simp only [document, List.mem_cons, Prod.mk.injEq, List.not_mem_nil, or_false] at hentry
  rcases hentry with ⟨rfl, rfl⟩ | ⟨rfl, rfl⟩ | ⟨rfl, rfl⟩
  · revert inner
    decide
  · revert inner
    decide
  · cases hinner

theorem acyclic_document : document.Acyclic := by
  have hlt : ∀ {name inner}, Relation.TransGen document.Spreads name inner →
      height inner < height name := by
    intro name inner h
    induction h with
    | single h => exact height_lt_of_spreads h
    | tail _ h ih => exact (height_lt_of_spreads h).trans ih
  exact fun name h => Nat.lt_irrefl _ (hlt h)

end Abbreviated

/-- The request with fragments comes to what it comes to with all of them written out. -/
theorem ofRequest_of_abbreviated :
    Abbreviated.document.DefinesSpreads ∧ Abbreviated.document.Acyclic ∧
    ∃ r, (Operation.ofRequest Abbreviated.engine Abbreviated.request).run = some r ∧
      (Operation.ofDocument Abbreviated.engine Abbreviated.plainDocument
        Abbreviated.request).run = some r := by
  have hdefined := Abbreviated.definesSpreads_document
  have hacyclic := Abbreviated.acyclic_document
  obtain ⟨⟨r, hr, hwritten⟩, hrequest⟩ := Operation.ofDocument_iterate_writtenOut hdefined hacyclic
    Abbreviated.engine Abbreviated.request
  obtain ⟨_, hplain⟩ := (hwritten 3).2 (Nat.le_refl 3)
  rw [Abbreviated.iterate_writtenOut] at hplain
  exact ⟨hdefined, hacyclic, r, by rw [hrequest Abbreviated.parse_request, hr], hplain⟩

end ODataGraph
