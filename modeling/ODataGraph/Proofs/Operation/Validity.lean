import ODataGraph.Proofs.Operation.Expansion
import ODataGraph.Proofs.Registry.Subsumption

/-!
What is normalized fits the types that it is selected on: wherever a selection applies, there is a
field for it. Fields are looked up on the object of a fragment's type, and the objects that remain
possible within fragments have all fields of that one.
-/

namespace ODataGraph

namespace Scope

variable {s : Scope} {n n' : Narrowed} {conditions : List String}

/-- What is left within fragments: the fields are those of a type that all remaining objects can
be, and objects are only ever taken away. -/
structure Narrows (s : Scope) (n : Narrowed) : Prop where
  covers : n.object = s.object ∧ n.possibleTypes = s.possibleTypes ∨
    ∃ key, n.object = (s.registry.concreteObject? key).map Prod.snd ∧
      ∀ t ∈ n.possibleTypes, t ∈ s.registry.possibleTypes key
  sublist : n.possibleTypes.Sublist s.possibleTypes
  unnamed : n.typeName = none → n.possibleTypes = s.possibleTypes

theorem Narrows.narrowBy (h : s.Narrows n) {condition : String}
    (hn : s.narrowBy n condition = .ok n') : s.Narrows n' := by
  rw [Scope.narrowBy] at hn
  dsimp only at hn
  split at hn
  · cases hn
    exact h
  split at hn
  · cases hn
  split at hn
  · split at hn
    · cases hn
    · cases hn
      rename_i key type _ _ _
      refine ⟨.inr ⟨key, rfl, fun t ht => ?_⟩, List.filter_sublist.trans h.sublist, nofun⟩
      simpa using (List.mem_filter.1 ht).2
  · cases hn

theorem narrows_of_narrow (h : s.narrow conditions = .ok n) : s.Narrows n := by
  rw [narrow] at h
  have hstart : s.Narrows ⟨s.object, s.possibleTypes, none⟩ :=
    ⟨.inl ⟨rfl, rfl⟩, List.Sublist.refl _, fun _ => rfl⟩
  generalize (⟨s.object, s.possibleTypes, none⟩ : Narrowed) = start at h hstart
  induction conditions generalizing start with
  | nil =>
    cases h
    exact hstart
  | cons condition rest ih =>
    rw [List.foldlM_cons] at h
    cases hstep : s.narrowBy start condition with
    | error error =>
      rw [hstep] at h
      cases h
    | ok next =>
      rw [hstep] at h
      exact ih next h (hstart.narrowBy hstep)

/-- Where a selection applies within fragments, something is left of its scope. -/
theorem Narrows.mem_of_appliesTo (h : s.Narrows n) {selection : Selection} {t : String}
    (hc : selection.condition = s.condition n) (ht : t ∈ s.possibleTypes)
    (ha : selection.appliesTo t = true) : t ∈ n.possibleTypes := by
  rw [Selection.appliesTo, hc, condition] at ha
  cases hname : n.typeName with
  | none => rwa [h.unnamed hname]
  | some typeName =>
    simp only [hname, Option.bind_eq_bind, Option.bind_some] at ha
    by_cases hlt : n.possibleTypes.length < s.possibleTypes.length
    · rw [if_pos hlt] at ha
      simpa using ha
    · rwa [h.sublist.eq_of_length_le (Nat.le_of_not_lt hlt)]

theorem narrowBy_root (r : Registry) (o : ObjectType) (condition : String) :
    (root r o).narrowBy ⟨some o, [], none⟩ condition = .ok ⟨some o, [], none⟩ ∨
      ∃ error, (root r o).narrowBy ⟨some o, [], none⟩ condition = .error error := by
  rw [narrowBy]
  dsimp only
  split
  · exact .inl rfl
  split
  · exact .inr ⟨_, rfl⟩
  split
  · exact .inr ⟨_, rfl⟩
  · exact .inr ⟨_, rfl⟩

/-- No fragment narrows a root. -/
theorem eq_of_narrow_root {r : Registry} {o : ObjectType}
    (h : (root r o).narrow conditions = .ok n) : n = ⟨some o, [], none⟩ := by
  change conditions.foldlM (root r o).narrowBy ⟨some o, [], none⟩ = .ok n at h
  induction conditions with
  | nil =>
    cases h
    rfl
  | cons condition rest ih =>
    rw [List.foldlM_cons] at h
    rcases narrowBy_root r o condition with hstep | ⟨error, hstep⟩
    · rw [hstep] at h
      exact ih h
    · rw [hstep] at h
      cases h

end Scope

namespace Selection

variable {r : Registry} {key : String} {s : Selection}

/-- Wherever a selection on values of a type applies, there is a field for it, and what is selected
below fits the type of that. -/
inductive Fits (r : Registry) : String → Selection → Prop
  | intro {key : String} {s : Selection} (type : TypeReference)
      (has : s.name ≠ typenameField → ∀ t ∈ r.possibleTypes key, s.appliesTo t = true →
        ∃ o f, r.object? t = some o ∧ o.fields.get? s.name = some f ∧ f.type = type)
      (below : ∀ k, type.key? = some k → ∀ s' ∈ s.fields, Fits r k s') : Fits r key s

/-- A selection on a root is that of one of its fields. -/
def FitsRoot (r : Registry) (root : ObjectType) (s : Selection) : Prop :=
  s.name ≠ typenameField → ∃ f, root.fields.get? s.name = some f ∧
    ∀ k, f.type.key? = some k → ∀ s' ∈ s.fields, s'.Fits r k

end Selection

namespace Normalization

variable {α β : Type}

theorem exists_of_run_mapM {f : α → Normalization β} {as : List α} {bs : List β} {b : β}
    (h : (as.mapM f).run = some (.ok bs)) (hb : b ∈ bs) : ∃ a ∈ as, (f a).run = some (.ok b) := by
  induction as generalizing bs with
  | nil =>
    cases h
    cases hb
  | cons a as ih =>
    rw [List.mapM_cons] at h
    obtain ⟨c, hc, h⟩ := run_bind_eq_ok_iff.1 h
    obtain ⟨cs, hcs, h⟩ := run_bind_eq_ok_iff.1 h
    cases h
    rcases List.mem_cons.1 hb with rfl | hb
    · exact ⟨a, List.mem_cons_self, hc⟩
    · obtain ⟨a', ha', hf⟩ := ih hcs hb
      exact ⟨a', List.mem_cons_of_mem _ ha', hf⟩

end Normalization

namespace Graphql.Environment

variable {e : Environment} {s : Scope} {r : Registry}

theorem cases_completeField {below : Below} {f : SelectedField} {selection : ODataGraph.Selection}
    (h : (e.completeField below s f).run = some (.ok selection)) :
    ∃ head, e.headOf s f = .ok head ∧
      (head.below = none ∧ selection = head.selection ∨
        ∃ scope fields, head.below = some scope ∧
          (below scope f.selections).run = some (.ok fields) ∧
          selection = { head.selection with fields }) := by
  rw [completeField, Normalization.run_lift_bind] at h
  cases hhead : e.headOf s f with
  | error error =>
    rw [hhead] at h
    cases h
  | ok head =>
    refine ⟨head, rfl, ?_⟩
    simp only [hhead] at h
    cases hb : head.below with
    | none =>
      rw [hb] at h
      cases h
      exact .inl ⟨rfl, rfl⟩
    | some scope =>
      simp only [hb] at h
      obtain ⟨fields, hfields, h⟩ := Normalization.run_bind_eq_ok_iff.1 h
      cases h
      exact .inr ⟨scope, fields, rfl, hfields, rfl⟩

/-- What is selected below a field fits its type, if all does that is normalized there. -/
theorem fits_below {below : Below} {f : SelectedField} {selection : ODataGraph.Selection}
    {head : FieldHead} {definition : Field} {key : String}
    (hbelow : ∀ key scope l fields, Scope.ofType? r key = some scope →
      (below scope l).run = some (.ok fields) → ∀ s ∈ fields, s.Fits r key)
    (hb : head.below = none ∧ selection = head.selection ∨
      ∃ scope fields, head.below = some scope ∧
        (below scope f.selections).run = some (.ok fields) ∧
        selection = { head.selection with fields })
    (hempty : head.selection.fields = [])
    (hscope : scopeBelow r definition f = .ok head.below) (hk : definition.type.key? = some key) :
    ∀ s ∈ selection.fields, s.Fits r key := by
  rcases hb with ⟨_, rfl⟩ | ⟨scope, fields, hsome, hfields, rfl⟩
  · rw [hempty]
    exact fun _ h => absurd h List.not_mem_nil
  · obtain ⟨key', hkey', hscope⟩ := key?_of_scopeBelow (hscope.trans (congrArg _ hsome))
    cases hk.symm.trans hkey'
    exact hbelow key scope _ fields hscope hfields

variable {service : Service} {d : Csdl.Document} {h : Hierarchy} {F : FieldMap}

theorem fits_of_completeField (hs : r.Settled service d h F) (hk : d.KeepsFieldTypes service)
    {below : Below} {f : SelectedField} {selection : ODataGraph.Selection} {key : String}
    (hbelow : ∀ key scope l fields, Scope.ofType? r key = some scope →
      (below scope l).run = some (.ok fields) → ∀ s ∈ fields, s.Fits r key)
    (hscope : Scope.ofType? r key = some s)
    (hf : (e.completeField below s f).run = some (.ok selection)) : selection.Fits r key := by
  obtain ⟨head, hhead, hb⟩ := cases_completeField hf
  obtain ⟨n, hn, hname, hcondition, hempty, hcases⟩ := cases_headOf hhead
  have hsame : selection.name = head.selection.name ∧
      selection.condition = head.selection.condition := by
    rcases hb with ⟨_, rfl⟩ | ⟨_, _, _, _, rfl⟩
    · exact ⟨rfl, rfl⟩
    · exact ⟨rfl, rfl⟩
  rcases hcases with ⟨htypename, hnone⟩ | ⟨_, definition, hdefinition, hdbelow⟩
  · refine .intro (.scalar .void) (fun hne => ?_) nofun
    exact absurd (hsame.1.trans (hname.trans htypename)) hne
  · obtain ⟨_, _, hscope⟩ := Option.bind_eq_some_iff.1 hscope
    cases hscope
    have hnarrows := Scope.narrows_of_narrow hn
    have hcovers : ∃ key', n.object = (r.concreteObject? key').map Prod.snd ∧
        ∀ t ∈ n.possibleTypes, t ∈ r.possibleTypes key' := by
      rcases hnarrows.covers with ⟨hobject, htypes⟩ | hcovers
      · refine ⟨key, hobject, fun t ht => ?_⟩
        rwa [htypes] at ht
      · exact hcovers
    obtain ⟨key', hobject, htypes⟩ := hcovers
    rw [hobject, Option.bind_eq_some_iff] at hdefinition
    obtain ⟨_, hmap, hdefinition⟩ := hdefinition
    obtain ⟨⟨objectKey, o⟩, ho, rfl⟩ := Option.map_eq_some_iff.1 hmap
    refine .intro definition.type (fun _ t ht happlies => ?_) fun k hkey => ?_
    · have hleft := hnarrows.mem_of_appliesTo (hsame.2.trans hcondition) ht happlies
      rw [hsame.1, hname]
      exact hs.exists_field_of_mem hk (htypes t hleft) ho hdefinition
    · exact fits_below hbelow hb hempty hdbelow hkey

theorem fits_of_normalizeTo (hs : r.Settled service d h F) (hk : d.KeepsFieldTypes service)
    (depth : Nat) : ∀ key scope l fields, Scope.ofType? r key = some scope →
      (e.normalizeTo depth scope l).run = some (.ok fields) → ∀ s ∈ fields, s.Fits r key := by
  induction depth with
  | zero =>
    intro key scope l fields _ h
    cases h
  | succ depth ih =>
    intro key scope l fields hscope h s hmem
    rw [normalizeTo, normalizeBy, Normalization.run_lift_bind] at h
    cases hl : e.fieldsOf l with
    | error error =>
      rw [hl] at h
      cases h
    | ok selected =>
      rw [hl] at h
      obtain ⟨f, _, hf⟩ := Normalization.exists_of_run_mapM h hmem
      exact fits_of_completeField hs hk ih hscope hf

/-- What is normalized on a type fits it. -/
theorem fits_of_normalize (hs : r.Settled service d h F) (hk : d.KeepsFieldTypes service)
    (key : String) (scope : Scope) (l : List Selection) (fields : List ODataGraph.Selection)
    (hscope : Scope.ofType? r key = some scope)
    (hn : e.normalize scope l = some (.ok fields)) : ∀ s ∈ fields, s.Fits r key := by
  obtain ⟨depth, hdepth⟩ := normalize_eq_some_iff.1 hn
  exact fits_of_normalizeTo hs hk depth key scope l fields hscope hdepth

/-- What is normalized on a root is selected on its fields. -/
theorem fitsRoot_of_normalize (hs : r.Settled service d h F) (hk : d.KeepsFieldTypes service)
    {root : ObjectType} {l : List Selection} {fields : List ODataGraph.Selection}
    (hn : e.normalize (.root r root) l = some (.ok fields)) : ∀ s ∈ fields, s.FitsRoot r root := by
  intro selection hmem
  rw [normalize_eq, normalizeBy, Normalization.run_lift_bind] at hn
  cases hl : e.fieldsOf l with
  | error error =>
    rw [hl] at hn
    cases hn
  | ok selected =>
    rw [hl] at hn
    obtain ⟨f, _, hf⟩ := Normalization.exists_of_run_mapM hn hmem
    obtain ⟨head, hhead, hb⟩ := cases_completeField hf
    obtain ⟨n, hnarrow, hname, _, hempty, hcases⟩ := cases_headOf hhead
    have hsame : selection.name = head.selection.name := by
      rcases hb with ⟨_, rfl⟩ | ⟨_, _, _, _, rfl⟩
      · rfl
      · rfl
    intro hne
    rcases hcases with ⟨htypename, _⟩ | ⟨_, definition, hdefinition, hdbelow⟩
    · exact absurd (hsame.trans (hname.trans htypename)) hne
    · cases Scope.eq_of_narrow_root hnarrow
      rw [hsame, hname]
      exact ⟨definition, hdefinition, fun k hkey =>
        fits_below (fits_of_normalize hs hk) hb hempty hdbelow hkey⟩

end Graphql.Environment

/-- The service that answers a root field. -/
def RootTarget.service? : RootTarget → Option ExposedService
  | .typename => none
  | .service s => some s
  | .host _ s => some s

/-- What is selected on a root field fits the root of its service, or the type that the host gives
it. -/
def RootField.Fits (f : RootField) (kind : RootKind) : Prop :=
  match f.target with
  | .typename => True
  | .service s => ∀ t ∈ f.fields, t.FitsRoot s.registry (s.root kind)
  | .host h s => ∀ key, h.field.type.key? = some key → ∀ t ∈ f.fields, t.Fits s.registry key

namespace Operation

open Graphql (Environment SelectedField)
open Graphql.Environment (scopeBelow)

variable {e : Engine} {o : OpenedOperation} {request : RawRequest} {operation : Operation}
variable {f : RootField}

theorem cases_headOf {kind : RootKind} {env : Environment} {g : SelectedField} {head : Head}
    (h : headOf e env kind g = .ok head) :
    head.field.fields = [] ∧
      (head.field.target = .typename ∧ head.below = none ∨
        (∃ s, head.field.target = .service s ∧
          head.below = some (.root s.registry (s.root kind))) ∨
        ∃ b s, head.field.target = .host b s ∧
          scopeBelow s.registry b.field g = .ok head.below) := by
  rw [headOf] at h
  split at h
  · cases h
  dsimp only at h
  split at h
  · obtain ⟨_, _, h⟩ := bind_eq_ok_iff.1 h
    cases h
    exact ⟨rfl, .inl ⟨rfl, rfl⟩⟩
  split at h
  · rw [serviceHead] at h
    split at h
    · cases h
    · obtain ⟨_, _, h⟩ := bind_eq_ok_iff.1 h
      cases h
      exact ⟨rfl, .inr (.inl ⟨_, rfl, rfl⟩)⟩
  · obtain ⟨_, _, h⟩ := bind_eq_ok_iff.1 h
    obtain ⟨below, hbelow, h⟩ := bind_eq_ok_iff.1 h
    cases h
    exact ⟨rfl, .inr (.inr ⟨_, _, rfl, hbelow⟩)⟩
  · cases h

theorem cases_completeField {below : Environment.Below} {g : SelectedField}
    (h : (completeField e o below g).run = some (.ok f)) :
    ∃ head, headOf e o.env o.kind g = .ok head ∧
      (head.below = none ∧ f = head.field ∨
        ∃ scope fields, head.below = some scope ∧
          (below scope g.selections).run = some (.ok fields) ∧
          f = { head.field with fields }) := by
  rw [completeField, Normalization.run_lift_bind] at h
  cases hhead : headOf e o.env o.kind g with
  | error error =>
    rw [hhead] at h
    cases h
  | ok head =>
    refine ⟨head, rfl, ?_⟩
    simp only [hhead] at h
    cases hb : head.below with
    | none =>
      rw [hb] at h
      cases h
      exact .inl ⟨rfl, rfl⟩
    | some scope =>
      simp only [hb] at h
      obtain ⟨fields, hfields, h⟩ := Normalization.run_bind_eq_ok_iff.1 h
      cases h
      exact .inr ⟨scope, fields, rfl, hfields, rfl⟩

theorem cases_ofRequest (h : (ofRequest e request).run = some (.ok operation)) :
    ∃ o, OpenedOperation.ofRequest request = .ok o ∧ operation.kind = o.kind ∧
      ∀ f ∈ operation.fields, ∃ g ∈ o.fields,
        (completeField e o o.env.normalize g).run = some (.ok f) := by
  rw [ofRequest, Normalization.run_lift_bind] at h
  cases ho : OpenedOperation.ofRequest request with
  | error error =>
    rw [ho] at h
    cases h
  | ok o =>
    rw [ho] at h
    obtain ⟨fields, hfields, h⟩ := Normalization.run_bind_eq_ok_iff.1 h
    cases h
    exact ⟨o, rfl, rfl, fun f hf => Normalization.exists_of_run_mapM hfields hf⟩

variable {s : ExposedService} {service : Service} {d : Csdl.Document} {h : Hierarchy} {F : FieldMap}

/-- What an accepted request selects fits the types of the service that it is selected on. -/
theorem fits_of_ofRequest (hs : s.registry.Settled service d h F) (hk : d.KeepsFieldTypes service)
    (ho : (ofRequest e request).run = some (.ok operation)) (hf : f ∈ operation.fields)
    (hservice : f.target.service? = some s) : f.Fits operation.kind := by
  obtain ⟨o, _, hkind, hfields⟩ := cases_ofRequest ho
  obtain ⟨g, _, hg⟩ := hfields f hf
  obtain ⟨head, hhead, hb⟩ := cases_completeField hg
  obtain ⟨hempty, hcases⟩ := cases_headOf hhead
  have htarget : f.target = head.field.target := by
    rcases hb with ⟨_, rfl⟩ | ⟨_, _, _, _, rfl⟩
    · rfl
    · rfl
  rw [htarget] at hservice
  rw [RootField.Fits, htarget, hkind]
  rcases hcases with ⟨htypename, _⟩ | ⟨s', hs', hroot⟩ | ⟨b, s', hs', hscope⟩
  · rw [htypename] at hservice
    cases hservice
  · rw [hs'] at hservice ⊢
    cases hservice
    rcases hb with ⟨hnone, _⟩ | ⟨scope, fields, hsome, hn, rfl⟩
    · cases hroot.symm.trans hnone
    · cases hroot.symm.trans hsome
      exact Environment.fitsRoot_of_normalize hs hk hn
  · rw [hs'] at hservice ⊢
    cases hservice
    intro key hkey
    rcases hb with ⟨_, rfl⟩ | ⟨scope, fields, hsome, hn, rfl⟩
    · rw [hempty]
      exact fun _ h => absurd h List.not_mem_nil
    · obtain ⟨key', hkey', htype⟩ :=
        Environment.key?_of_scopeBelow (hscope.trans (congrArg _ hsome))
      cases hkey.symm.trans hkey'
      exact Environment.fits_of_normalize hs hk key scope _ fields htype hn

end Operation

end ODataGraph
