import Mathlib.Data.List.Forall2
import ODataGraph.Proofs.Operation.Argument
import ODataGraph.Proofs.Operation.Condition
import ODataGraph.Proofs.Operation.Limit
import ODataGraph.Proofs.Operation.Validity

/-!
Selections are accepted iff they are valid. What is valid is said without the order in which it is
checked: which fields there are within fragments, what they take, and that something is selected on
objects and unions and on nothing else, all the way down.
-/

namespace ODataGraph

namespace Normalization

variable {α β : Type} {g : α → Normalization β} {as : List α} {bs : List β}

theorem run_mapM_eq_ok_iff : (as.mapM g).run = some (.ok bs) ↔
    List.Forall₂ (fun a b => (g a).run = some (.ok b)) as bs := by
  induction as generalizing bs with
  | nil =>
    rw [List.forall₂_nil_left_iff]
    constructor
    · intro h
      cases h
      rfl
    · rintro rfl
      rfl
  | cons a as ih =>
    rw [List.forall₂_cons_left_iff]
    constructor
    · intro h
      rw [List.mapM_cons] at h
      obtain ⟨b, hb, h⟩ := run_bind_eq_ok_iff.1 h
      obtain ⟨rest, hrest, h⟩ := run_bind_eq_ok_iff.1 h
      cases h
      exact ⟨b, rest, hb, ih.1 hrest, rfl⟩
    · rintro ⟨b, rest, hb, hrest, rfl⟩
      rw [run_mapM_cons_of_ok hb, run_bind_of_ok (ih.2 hrest), run_pure]

theorem exists_run_mapM (h : ∀ a ∈ as, ∃ b, (g a).run = some (.ok b)) :
    ∃ bs, (as.mapM g).run = some (.ok bs) := by
  simp only [run_mapM_eq_ok_iff]
  induction as with
  | nil => exact ⟨[], .nil⟩
  | cons a as ih =>
    obtain ⟨⟨b, hb⟩, hrest⟩ := List.forall_mem_cons.1 h
    obtain ⟨bs, hbs⟩ := ih hrest
    exact ⟨b :: bs, .cons hb hbs⟩

theorem exists_run_of_mem (h : (as.mapM g).run = some (.ok bs)) {a : α} (ha : a ∈ as) :
    ∃ b, (g a).run = some (.ok b) := by
  have hall := run_mapM_eq_ok_iff.1 h
  clear h
  induction hall with
  | nil => cases ha
  | cons hb _ ih =>
    rcases List.mem_cons.1 ha with rfl | ha
    · exact ⟨_, hb⟩
    · exact ih ha

end Normalization

namespace Graphql.Environment

variable {e : Environment} {s : Scope} {f : SelectedField} {l : List Selection}
variable {definition : Field} {fields : List SelectedField}

/-- A field of an object, or of the base variant of a union, as it is selected within fragments. -/
def definition? (s : Scope) (f : SelectedField) : Option Field :=
  (s.objectWithin f.conditions).bind (·.fields.get? f.name)

/-- The scope of a field that holds objects or unions of the registry. -/
def below? (s : Scope) (definition : Field) : Option Scope :=
  definition.type.key?.bind (Scope.ofType? s.registry)

/-- A field is valid in a scope. It has to be so at finite depth: a fragment that is opened within
itself over and over is not. -/
inductive Valid (e : Environment) : Scope → SelectedField → Prop
  | typename {s : Scope} {f : SelectedField} (hadmits : s.Admits f.conditions)
      (hname : f.name = typenameField) (hnothing : f.selections = []) : Valid e s f
  | leaf {s : Scope} {f : SelectedField} {definition : Field} (hadmits : s.Admits f.conditions)
      (hname : f.name ≠ typenameField) (hdefinition : definition? s f = some definition)
      (harguments : e.Takes definition.arguments f.arguments)
      (hleaf : below? s definition = none) (hnothing : f.selections = []) : Valid e s f
  | composite {s below : Scope} {f : SelectedField} {definition : Field}
      {fields : List SelectedField} (hadmits : s.Admits f.conditions)
      (hname : f.name ≠ typenameField) (hdefinition : definition? s f = some definition)
      (harguments : e.Takes definition.arguments f.arguments)
      (hbelow : below? s definition = some below) (hsomething : f.selections ≠ [])
      (hfields : e.fieldsOf f.selections = .ok fields)
      (hvalid : ∀ g ∈ fields, Valid e below g) : Valid e s f

/-- What an accepted field comes to. -/
structure Describes (e : Environment) (s : Scope) (f : SelectedField)
    (selection : ODataGraph.Selection) : Prop where
  responseKey : selection.responseKey = f.responseKey
  name : selection.name = f.name
  /-- There is a condition if the fragments exclude something of the scope. -/
  condition : selection.condition =
    if s.left f.conditions = s.possibleTypes then none
    else (s.innermost? f.conditions).map (⟨·, s.left f.conditions⟩)
  /-- Of several values for one argument the last one counts. -/
  arguments : f.name = typenameField ∧ selection.arguments = ∅ ∨
    f.name ≠ typenameField ∧ ∃ js, e.evaluateAll f.arguments = .ok js ∧
      selection.arguments = OrderedMap.ofList js
  fields : f.selections = [] ∧ selection.fields = [] ∨
    ∃ definition below, definition? s f = some definition ∧ below? s definition = some below ∧
      e.normalize below f.selections = some (.ok selection.fields)

theorem requireLeaf_eq_ok_iff : f.requireLeaf = .ok () ↔ f.selections = [] := by
  rw [SelectedField.requireLeaf]
  cases f.selections with
  | nil => exact ⟨fun _ => rfl, fun _ => rfl⟩
  | cons _ _ => exact ⟨nofun, nofun⟩

theorem scopeBelow_eq_ok_iff {below : Option Scope} :
    scopeBelow s.registry definition f = .ok below ↔ below = below? s definition ∧
      (below? s definition = none ↔ f.selections = []) := by
  rw [scopeBelow, below?]
  cases definition.type.key?.bind (Scope.ofType? s.registry) with
  | some scope =>
    cases f.selections with
    | nil =>
      constructor
      · rintro ⟨⟩
      · rintro ⟨_, hiff⟩
        cases hiff.2 rfl
    | cons _ _ =>
      constructor
      · intro h
        cases h
        refine ⟨rfl, ?_⟩
        constructor <;> rintro ⟨⟩
      · rintro ⟨rfl, _⟩
        rfl
  | none =>
    constructor
    · intro h
      obtain ⟨_, hleaf, h⟩ := bind_eq_ok_iff.1 h
      cases h
      exact ⟨rfl, fun _ => requireLeaf_eq_ok_iff.1 hleaf, fun _ => rfl⟩
    · rintro ⟨rfl, hiff⟩
      exact bind_eq_ok_iff.2 ⟨(), requireLeaf_eq_ok_iff.2 (hiff.1 rfl), rfl⟩

/-- What is known of a field that has a head. -/
theorem of_headOf_eq_ok {head : FieldHead} (h : e.headOf s f = .ok head) :
    s.Admits f.conditions ∧
      head.selection.responseKey = f.responseKey ∧ head.selection.name = f.name ∧
      head.selection.condition = s.condition (s.within f.conditions) ∧
      head.selection.fields = [] ∧
      (f.name = typenameField ∧ f.selections = [] ∧ head.selection.arguments = ∅ ∧
          head.below = none ∨
        f.name ≠ typenameField ∧ ∃ definition, definition? s f = some definition ∧
          e.argumentsOf definition.arguments f = .ok head.selection.arguments ∧
          head.below = below? s definition ∧
          (below? s definition = none ↔ f.selections = [])) := by
  obtain ⟨n, hn, h⟩ := bind_eq_ok_iff.1 h
  obtain ⟨hadmits, rfl⟩ := Scope.narrow_eq_ok_iff.1 hn
  refine ⟨hadmits, ?_⟩
  split at h
  · rename_i hname
    obtain ⟨_, hleaf, h⟩ := bind_eq_ok_iff.1 h
    cases h
    exact ⟨rfl, rfl, rfl, rfl, .inl ⟨hname, requireLeaf_eq_ok_iff.1 hleaf, rfl, rfl⟩⟩
  · rename_i hname
    split at h
    · rename_i definition hdefinition
      obtain ⟨arguments, harguments, h⟩ := bind_eq_ok_iff.1 h
      obtain ⟨below, hbelow, h⟩ := bind_eq_ok_iff.1 h
      cases h
      obtain ⟨rfl, hiff⟩ := scopeBelow_eq_ok_iff.1 hbelow
      exact ⟨rfl, rfl, rfl, rfl, .inr ⟨hname, definition, hdefinition, harguments, rfl, hiff⟩⟩
    · cases h

theorem exists_headOf_typename (hadmits : s.Admits f.conditions) (hname : f.name = typenameField)
    (hnothing : f.selections = []) : ∃ head, e.headOf s f = .ok head ∧ head.below = none := by
  have hnarrow := Scope.narrow_eq_ok_iff.2 ⟨hadmits, rfl⟩
  have hleaf := requireLeaf_eq_ok_iff.2 hnothing
  let selection : ODataGraph.Selection := {
    responseKey := f.responseKey
    name := f.name
    condition := s.condition (s.within f.conditions) }
  refine ⟨⟨selection, none⟩, ?_, rfl⟩
  refine bind_eq_ok_iff.2 ⟨_, hnarrow, ?_⟩
  rw [if_pos hname]
  exact bind_eq_ok_iff.2 ⟨(), hleaf, rfl⟩

theorem exists_headOf_definition (hadmits : s.Admits f.conditions) (hname : f.name ≠ typenameField)
    (hdefinition : definition? s f = some definition)
    (harguments : ∃ arguments, e.argumentsOf definition.arguments f = .ok arguments)
    (hiff : below? s definition = none ↔ f.selections = []) :
    ∃ head, e.headOf s f = .ok head ∧ head.below = below? s definition := by
  have hnarrow := Scope.narrow_eq_ok_iff.2 ⟨hadmits, rfl⟩
  have hbelow := scopeBelow_eq_ok_iff.2 ⟨rfl, hiff⟩
  obtain ⟨arguments, harguments⟩ := harguments
  have hobject : (s.within f.conditions).object.bind (·.fields.get? f.name) = some definition :=
    hdefinition
  let selection : ODataGraph.Selection := {
    responseKey := f.responseKey
    name := f.name
    arguments
    condition := s.condition (s.within f.conditions) }
  refine ⟨⟨selection, below? s definition⟩, ?_, rfl⟩
  refine bind_eq_ok_iff.2 ⟨_, hnarrow, ?_⟩
  rw [if_neg hname, hobject]
  exact bind_eq_ok_iff.2 ⟨arguments, harguments, bind_eq_ok_iff.2 ⟨_, hbelow, rfl⟩⟩

theorem run_completeField_of_none {below : Below} {head : FieldHead} (h : e.headOf s f = .ok head)
    (hbelow : head.below = none) : (e.completeField below s f).run = some (.ok head.selection) := by
  rw [completeField, Normalization.run_lift_bind, h]
  simp only [hbelow, Normalization.run_pure]

theorem run_completeField_of_some {below : Below} {head : FieldHead} {scope : Scope}
    {selections : List ODataGraph.Selection} (h : e.headOf s f = .ok head)
    (hbelow : head.below = some scope)
    (hselections : (below scope f.selections).run = some (.ok selections)) :
    (e.completeField below s f).run = some (.ok { head.selection with fields := selections }) := by
  rw [completeField, Normalization.run_lift_bind, h]
  simp only [hbelow]
  rw [Normalization.run_bind_of_ok hselections, Normalization.run_pure]

theorem exists_normalize (hfields : e.fieldsOf l = .ok fields)
    (h : ∀ f ∈ fields, ∃ selection,
      (e.completeField e.normalize s f).run = some (.ok selection)) :
    ∃ selections, e.normalize s l = some (.ok selections) := by
  rw [normalize_eq, normalizeBy, Normalization.run_lift_bind, hfields]
  exact Normalization.exists_run_mapM h

/-- A valid field is accepted. -/
theorem Valid.exists_completeField (h : Valid e s f) (he : e.WithinLimits) (hf : f.WithinLimits) :
    ∃ selection, (e.completeField e.normalize s f).run = some (.ok selection) := by
  induction h with
  | typename hadmits hname hnothing =>
    obtain ⟨head, hhead, hbelow⟩ := exists_headOf_typename (e := e) hadmits hname hnothing
    exact ⟨_, run_completeField_of_none hhead hbelow⟩
  | leaf hadmits hname hdefinition harguments hleaf hnothing =>
    have harguments := (exists_argumentsOf_iff hf.arguments).2 harguments
    obtain ⟨head, hhead, hbelow⟩ := exists_headOf_definition hadmits hname hdefinition harguments
      ⟨fun _ => hnothing, fun _ => hleaf⟩
    exact ⟨_, run_completeField_of_none hhead (hbelow.trans hleaf)⟩
  | composite hadmits hname hdefinition harguments hbelow hsomething hfields _ ih =>
    have harguments := (exists_argumentsOf_iff hf.arguments).2 harguments
    obtain ⟨head, hhead, hscope⟩ := exists_headOf_definition hadmits hname hdefinition harguments
      ⟨fun hnone => absurd (hbelow.symm.trans hnone) nofun, fun h => absurd h hsomething⟩
    have hall := fun g hg => ih g hg (he.of_mem_fieldsOf hf.selections hfields hg)
    obtain ⟨selections, hselections⟩ := exists_normalize hfields hall
    exact ⟨_, run_completeField_of_some hhead (hscope.trans hbelow) hselections⟩

theorem exists_fieldsOf_of_normalizeTo {depth : Nat} {selections : List ODataGraph.Selection}
    (h : (e.normalizeTo depth s l).run = some (.ok selections)) :
    ∃ fields, e.fieldsOf l = .ok fields := by
  cases depth with
  | zero => cases h
  | succ depth =>
    rw [normalizeTo, normalizeBy, Normalization.run_lift_bind] at h
    cases hfields : e.fieldsOf l with
    | ok fields => exact ⟨fields, rfl⟩
    | error error =>
      rw [hfields] at h
      cases h

/-- What is accepted at some depth is valid. -/
theorem valid_of_normalizeTo (he : e.WithinLimits) (depth : Nat) :
    ∀ s l fields selections, Selection.WithinLimits l → e.fieldsOf l = .ok fields →
      (e.normalizeTo depth s l).run = some (.ok selections) → ∀ f ∈ fields, Valid e s f := by
  induction depth with
  | zero => rintro _ _ _ _ _ _ ⟨⟩
  | succ depth ih =>
    intro s l fields selections hl hfields h f hmem
    have hf := he.of_mem_fieldsOf hl hfields hmem
    rw [normalizeTo, normalizeBy, Normalization.run_lift_bind, hfields] at h
    obtain ⟨selection, hselection⟩ := Normalization.exists_run_of_mem h hmem
    obtain ⟨head, hhead, hcases⟩ := cases_completeField hselection
    obtain ⟨hadmits, _, _, _, _, hname⟩ := of_headOf_eq_ok hhead
    rcases hname with ⟨hname, hnothing, _, _⟩ |
      ⟨hname, definition, hdefinition, harguments, hbelow, hiff⟩
    · exact .typename hadmits hname hnothing
    · have htakes := (exists_argumentsOf_iff hf.arguments).1 ⟨_, harguments⟩
      rcases hcases with ⟨hnone, _⟩ | ⟨scope, below, hscope, hrun, _⟩
      · have hleaf := hbelow.symm.trans hnone
        exact .leaf hadmits hname hdefinition htakes hleaf (hiff.1 hleaf)
      · have hcomposite := hbelow.symm.trans hscope
        have hsomething : f.selections ≠ [] := by
          intro hnothing
          cases hcomposite.symm.trans (hiff.2 hnothing)
        obtain ⟨inner, hinner⟩ := exists_fieldsOf_of_normalizeTo hrun
        exact .composite hadmits hname hdefinition htakes hcomposite hsomething hinner
          (ih scope f.selections inner below hf.selections hinner hrun)

theorem describes_of_completeField {selection : ODataGraph.Selection}
    (h : (e.completeField e.normalize s f).run = some (.ok selection)) :
    Describes e s f selection := by
  obtain ⟨head, hhead, hcases⟩ := cases_completeField h
  obtain ⟨_, hkey, hname, hcondition, hempty, harguments⟩ := of_headOf_eq_ok hhead
  have hsame : selection.responseKey = head.selection.responseKey ∧
      selection.name = head.selection.name ∧ selection.condition = head.selection.condition ∧
      selection.arguments = head.selection.arguments := by
    rcases hcases with ⟨_, rfl⟩ | ⟨_, _, _, _, rfl⟩
    · exact ⟨rfl, rfl, rfl, rfl⟩
    · exact ⟨rfl, rfl, rfl, rfl⟩
  constructor
  case responseKey => exact hsame.1.trans hkey
  case name => exact hsame.2.1.trans hname
  case condition => rw [hsame.2.2.1, hcondition, Scope.condition_within]
  case arguments =>
    rw [hsame.2.2.2]
    rcases harguments with ⟨htypename, _, hnone, _⟩ | ⟨hne, _, _, harguments, _⟩
    · exact .inl ⟨htypename, hnone⟩
    · exact .inr ⟨hne, (argumentsOf_eq_ok_iff.1 harguments).2.1⟩
  case fields =>
    rcases hcases with ⟨hnone, rfl⟩ | ⟨scope, fields, hscope, hrun, rfl⟩
    · refine .inl ⟨?_, hempty⟩
      rcases harguments with ⟨_, hnothing, _, _⟩ | ⟨_, _, _, _, hbelow, hiff⟩
      · exact hnothing
      · exact hiff.1 (hbelow.symm.trans hnone)
    · rcases harguments with ⟨_, _, _, hnone⟩ | ⟨_, definition, hdefinition, _, hbelow, _⟩
      · cases hnone.symm.trans hscope
      · exact .inr ⟨definition, scope, hdefinition, hbelow.symm.trans hscope, hrun⟩

/-- Selections whose fragments can be opened are accepted iff all their fields are valid, and what
they come to is given field by field. -/
theorem normalize_accepts_iff (he : e.WithinLimits) (hl : Selection.WithinLimits l)
    (hfields : e.fieldsOf l = .ok fields) :
    ((∃ selections, e.normalize s l = some (.ok selections)) ↔ ∀ f ∈ fields, Valid e s f) ∧
      ∀ selections, e.normalize s l = some (.ok selections) →
        List.Forall₂ (Describes e s) fields selections := by
  constructor
  · constructor
    · rintro ⟨selections, h⟩
      obtain ⟨depth, hdepth⟩ := normalize_eq_some_iff.1 h
      exact valid_of_normalizeTo he depth s l fields selections hl hfields hdepth
    · intro h
      exact exists_normalize hfields fun f hf =>
        (h f hf).exists_completeField he (he.of_mem_fieldsOf hl hfields hf)
  · intro selections h
    rw [normalize_eq, normalizeBy, Normalization.run_lift_bind, hfields] at h
    exact (Normalization.run_mapM_eq_ok_iff.1 h).imp fun _ _ => describes_of_completeField

end Graphql.Environment

namespace Pup

open Registry (kennel)

def service : Service := ⟨"zoo", "http://zoo.test/odata"⟩

def env : Graphql.Environment := ⟨∅, ∅⟩

def selections : List Graphql.Selection :=
  [.inline (some "zoo_Puppy") [] [.field "breed" "Breed" [] [] []]]

def fields : List Graphql.SelectedField := [⟨"breed", "Breed", [], [], ["zoo_Puppy"]⟩]

def selection : Selection where
  responseKey := "breed"
  name := "Breed"
  condition := some ⟨"zoo_Puppy", ["Puppy"]⟩

end Pup

/-- The breed of a puppy can be selected where only animals are declared. -/
theorem accepts_of_kennel : ∃ registry scope,
    Registry.build Pup.service Registry.kennel = .ok registry ∧
    Scope.ofType? registry "Animal" = some scope ∧
    Pup.env.fieldsOf Pup.selections = .ok Pup.fields ∧
    (∀ f ∈ Pup.fields, Pup.env.Valid scope f) ∧
    List.Forall₂ (Pup.env.Describes scope) Pup.fields [Pup.selection] := by
  have hbuilt : ∃ registry scope, Registry.build Pup.service Registry.kennel = .ok registry ∧
      Scope.ofType? registry "Animal" = some scope ∧
      (Pup.env.normalizeTo 1 scope Pup.selections).run = some (.ok [Pup.selection]) :=
    ⟨_, _, rfl, rfl, rfl⟩
  obtain ⟨registry, scope, hregistry, hscope, hrun⟩ := hbuilt
  have hnormalize := Graphql.Environment.normalizeTo_extends_normalize 1 scope _ _ hrun
  have hfields : Pup.env.fieldsOf Pup.selections = .ok Pup.fields := by rfl
  have henv : Pup.env.WithinLimits := fun _ _ hg => by cases hg
  obtain ⟨haccepts, hdescribes⟩ := Graphql.Environment.normalize_accepts_iff (s := scope)
    henv ⟨1, rfl⟩ hfields
  exact ⟨registry, scope, hregistry, hscope, hfields, haccepts.1 ⟨_, hnormalize⟩,
    hdescribes _ hnormalize⟩

end ODataGraph
