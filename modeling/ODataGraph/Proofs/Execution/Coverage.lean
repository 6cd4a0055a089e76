import ODataGraph.Engine.Query
import ODataGraph.Proofs.Execution.Miss
import ODataGraph.Proofs.Graphql.Equality
import ODataGraph.Proofs.Operation.Validity

/-!
No field is missing at run time. Fields are looked up when a request is accepted on the type that is
declared, and when it is executed on the object that the data names; as long as that is of the
declared type or one below it, it has the fields.
-/

namespace ODataGraph

open Csdl (Extends)
open Relation (ReflTransGen TransGen)

namespace Standing

variable {r : Registry} {service : Service} {d : Csdl.Document} {h : Hierarchy} {F : FieldMap}
variable {st st' : Standing} {e : Entity} {x : Execution}

/-- The object names no registered type but the one that is declared there or one below it. -/
def NamesBelow (r : Registry) (d : Csdl.Document) (st : Standing) : Prop :=
  ∀ odataType, (st.data.get? Entity.typeMember).bind Json.string? = some odataType →
    r.get? (Entity.discriminatorKey odataType) = none ∨
    Entity.discriminatorKey odataType = st.declared ∨
    TransGen (Extends d.structuredTypes) (Entity.discriminatorKey odataType) st.declared

/-- Everything that is selected on the object fits its declared type. -/
def Fits (r : Registry) (st : Standing) : Prop := ∀ s ∈ st.fields, s.Fits r st.declared

theorem below_of_names (hnames : st.NamesBelow r d) {key : String}
    (hkey : Entity.Names r st.declared st.data key) :
    key = st.declared ∨ TransGen (Extends d.structuredTypes) key st.declared := by
  cases hkey with
  | declared _ => exact .inl rfl
  | named hodata ht =>
    apply (hnames _ hodata).resolve_left
    intro hnone
    cases hnone.symm.trans ht

/-- An object is of a type that is possible where it stands. -/
theorem mem_possibleTypes (hs : r.Settled service d h F) (hnames : st.NamesBelow r d)
    (he : st.entity r = .ok e) : e.typeKey ∈ r.possibleTypes st.declared := by
  obtain ⟨key, o, hkey, ho, _⟩ := Entity.cases_materialize he
  exact hs.mem_possibleTypes_of_below (below_of_names hnames hkey) ho

theorem covered_of_fits (hs : x.registry.Settled service d h F)
    (hnames : st.NamesBelow x.registry d) (hfits : st.Fits x.registry) : st.Covered x := by
  intro e he
  have hmem := mem_possibleTypes hs hnames he
  obtain ⟨o, ho⟩ := hs.exists_object_of_mem hmem
  refine ⟨o, ho, fun s hsel happlies hname => ?_⟩
  obtain ⟨type, has, _⟩ := hfits s hsel
  obtain ⟨o', f, ho', hf, _⟩ := has hname _ hmem happlies
  cases ho.symm.trans ho'
  exact ⟨f, hf, hs.ofEntity_of_object? ho hf⟩

/-- One step: what fits an object fits those that stand in its fields. -/
theorem fits_of_next (hs : x.registry.Settled service d h F)
    (hnames : st.NamesBelow x.registry d) (hfits : st.Fits x.registry) (hnext : x.Next st st') :
    st'.Fits x.registry := by
  obtain ⟨e, o, s, he, ho, hsel, happlies, hhands⟩ := hnext
  obtain ⟨hname, hfields, f, hf, hkey⟩ := hhands.declared
  obtain ⟨type, has, hbelow⟩ := hfits s hsel
  obtain ⟨o', f', ho', hf', htype⟩ := has hname _ (mem_possibleTypes hs hnames he) happlies
  cases ho.symm.trans ho'
  cases hf.symm.trans hf'
  intro t ht
  exact hbelow st'.declared (htype ▸ hkey) t (hfields ▸ ht)

theorem fits_of_reflTransGen (hs : x.registry.Settled service d h F)
    (hfits : st.Fits x.registry) (hway : ReflTransGen x.Next st st')
    (hnames : ∀ t, ReflTransGen x.Next st t → t.NamesBelow x.registry d) : st'.Fits x.registry := by
  induction hway with
  | refl => exact hfits
  | tail hway hnext ih => exact fits_of_next hs (hnames _ hway) ih hnext

end Standing

namespace Engine

variable {e : Engine} {cancelled : Bool} {kind : RootKind} {f : RootField} {st : Standing}

/-- An object that a root field has in its value: one for a field of the service's root, or one in
the value that the host gives. -/
def Starts (e : Engine) (cancelled : Bool) (kind : RootKind) (f : RootField) (st : Standing) :
    Prop :=
  match f.target with
  | .typename => False
  | .service s => ∃ t ∈ f.fields, (e.execution s cancelled).Hands (s.root kind) .root
      ([.field f.responseKey] ++ [.field t.responseKey]) t st
  | .host h s => ∃ value, h.resolve f.arguments = .ok value ∧
      Json.Holds s.registry f.fields h.field.type value [.field f.responseKey] st

/-- An object that is resolved for a root field, at any depth. -/
def Meets (e : Engine) (cancelled : Bool) (kind : RootKind) (f : RootField) (st : Standing) :
    Prop :=
  ∃ s start, f.target.service? = some s ∧ e.Starts cancelled kind f start ∧
    ReflTransGen (e.execution s cancelled).Next start st

/-- What is selected on the root of a service has fields there. -/
def RootCovered (kind : RootKind) (f : RootField) : Prop :=
  ∀ s, f.target = .service s → ∀ t ∈ f.fields, t.ResolvesOn (s.root kind) .root

section

variable {s : ExposedService} {b : BoundHostField} {error : FieldError}

/-- A root field covers nothing that would be missing, or an object below is not covered. -/
def Misses (e : Engine) (cancelled : Bool) (kind : RootKind) (f : RootField) (s : ExposedService) :
    Prop :=
  ¬ RootCovered kind f ∨
    ∃ st, e.Meets cancelled kind f st ∧ ¬ st.Covered (e.execution s cancelled)

theorem misses_of_resolveObject (hmiss : error.isMiss = true) (htarget : f.target = .service s)
    (h : ((e.execution s cancelled).resolveObject (s.root kind) .root f.fields
      [.field f.responseKey]).Gives (.error error)) : e.Misses cancelled kind f s := by
  obtain ⟨t, ht, _, h⟩ := Execution.exists_of_resolveFields_error
    (Execution.gives_resolveFields_of_resolveObject h)
  rcases Execution.misses_of_resolveField hmiss t _ _ _ h with
    hnot | ⟨start, st, hstart, hway, huncovered⟩
  · exact .inl fun hcovered => hnot (hcovered s htarget t ht)
  · refine .inr ⟨st, ⟨s, start, by rw [htarget]; rfl, ?_, hway⟩, huncovered⟩
    rw [Starts, htarget]
    exact ⟨t, ht, hstart⟩

theorem misses_of_resolveValue (hmiss : error.isMiss = true) (htarget : f.target = .host b s)
    {value : Json} (hvalue : b.resolve f.arguments = .ok value)
    (h : ((e.execution s cancelled).resolveValue b.field.type value f.fields
      [.field f.responseKey]).Gives (.error error)) : e.Misses cancelled kind f s := by
  have hobject : ∃ start,
      Json.Holds s.registry f.fields b.field.type value [.field f.responseKey] start ∧
      (e.execution s cancelled).FailsAt ((e.execution s cancelled).resolveEntity f.fields) error
        start :=
    Execution.exists_failsAt_of_completeValue hmiss (Resolver.gives_recover_error h)
  obtain ⟨start, hstart, hfails⟩ := hobject
  rw [← hstart.declared.2] at hfails
  obtain ⟨st, hway, huncovered⟩ := Execution.exists_uncovered_of_failsAt
    (fun t _ => Execution.misses_of_resolveField hmiss t) hfails
  refine .inr ⟨st, ⟨s, start, by rw [htarget]; rfl, ?_, hway⟩, huncovered⟩
  rw [Starts, htarget]
  exact ⟨value, hvalue, hstart⟩

theorem misses_of_rootValue (hmiss : error.isMiss = true) (hs : f.target.service? = some s)
    (h : (e.rootValue cancelled kind f [.field f.responseKey]).Gives (.error error)) :
    e.Misses cancelled kind f s := by
  rw [rootValue] at h
  cases htarget : f.target with
  | typename =>
    rw [htarget] at hs
    cases hs
  | service s' =>
    rw [htarget] at hs
    cases hs
    simp only [htarget] at h
    cases kind with
    | query =>
      rcases Resolver.gives_bind_error h with h | ⟨_, _, h⟩
      · rw [Execution.not_isMiss_of_preParse h] at hmiss
        cases hmiss
      · exact misses_of_resolveObject hmiss htarget h
    | mutation => exact misses_of_resolveObject hmiss htarget h
  | host b s' =>
    rw [htarget] at hs
    cases hs
    simp only [htarget] at h
    rcases Resolver.gives_bind_error h with h | ⟨value, hvalue, h⟩
    · rw [Resolver.not_isMiss_of_hook h] at hmiss
      cases hmiss
    · rw [Resolver.gives_lift] at hvalue
      cases hb : b.resolve f.arguments with
      | error _ =>
        rw [hb] at hvalue
        cases hvalue
      | ok value' =>
        rw [hb] at hvalue
        cases hvalue
        exact misses_of_resolveValue hmiss htarget hb h

end

variable {s : ExposedService} {service : Service} {d : Csdl.Document} {h : Hierarchy} {F : FieldMap}

theorem fits_of_starts (hfits : f.Fits kind) (hs : f.target.service? = some s)
    (hstarts : e.Starts cancelled kind f st) : st.Fits s.registry := by
  rw [Starts] at hstarts
  rw [RootField.Fits] at hfits
  cases htarget : f.target with
  | typename =>
    rw [htarget] at hstarts
    exact hstarts.elim
  | service s' =>
    rw [htarget] at hs hstarts hfits
    cases hs
    obtain ⟨t, ht, hhands⟩ := hstarts
    obtain ⟨hname, hfields, g, hg, hkey⟩ := hhands.declared
    obtain ⟨g', hg', hbelow⟩ := hfits t ht hname
    cases hg.symm.trans hg'
    intro t ht
    exact hbelow st.declared hkey t (hfields ▸ ht)
  | host b s' =>
    rw [htarget] at hs hstarts hfits
    cases hs
    obtain ⟨value, _, hholds⟩ := hstarts
    intro t ht
    exact hfits st.declared hholds.declared.1 t (hholds.declared.2 ▸ ht)

theorem rootCovered_of_fits (hfits : f.Fits kind) (hs : f.target.service? = some s)
    (hroot : s.registry.queryRoot.OfRoot ∧ s.registry.mutationRoot.OfRoot) :
    RootCovered kind f := by
  intro s' htarget t ht hname
  rw [htarget] at hs
  cases hs
  rw [RootField.Fits, htarget] at hfits
  obtain ⟨g, hg, _⟩ := hfits t ht hname
  refine ⟨g, hg, ?_⟩
  cases kind with
  | query => exact hroot.1 _ g hg
  | mutation => exact hroot.2 _ g hg

/-- No field of an accepted request is missing when it is executed. Every object that is resolved,
at any depth, has a registered type with the fields that are selected on it. -/
theorem covered_of_ofRequest {request : RawRequest} {operation : Operation} (hd : d.WellNamed)
    (hk : d.KeepsFieldTypes service) (hr : Registry.build service d = .ok s.registry)
    (ho : (Operation.ofRequest e request).run = some (.ok operation)) (hf : f ∈ operation.fields)
    (hs : f.target.service? = some s)
    (hdata : ∀ st, e.Meets cancelled operation.kind f st → st.NamesBelow s.registry d) :
    (∀ st, e.Meets cancelled operation.kind f st → st.Covered (e.execution s cancelled)) ∧
    RootCovered operation.kind f ∧
    ∀ error, (e.rootValue cancelled operation.kind f [.field f.responseKey]).Gives (.error error) →
      error.isMiss = false := by
  obtain ⟨h, F, hsettled⟩ := Registry.exists_settled_of_build hd hr
  have hfits := Operation.fits_of_ofRequest hsettled hk ho hf hs
  have hroot := rootCovered_of_fits hfits hs (Registry.ofRoot_of_build hr)
  have hcovered : ∀ st, e.Meets cancelled operation.kind f st →
      st.Covered (e.execution s cancelled) := by
    intro st hmeets
    obtain ⟨s', start, hs', hstarts, hway⟩ := hmeets
    cases hs.symm.trans hs'
    have hstart := fits_of_starts hfits hs hstarts
    have hstanding := Standing.fits_of_reflTransGen (x := e.execution s cancelled) hsettled hstart
      hway fun t ht => hdata t ⟨s, start, hs, hstarts, ht⟩
    exact Standing.covered_of_fits hsettled (hdata st ⟨s, start, hs, hstarts, hway⟩) hstanding
  refine ⟨hcovered, hroot, fun error hfails => ?_⟩
  by_contra hmiss
  rcases misses_of_rootValue (Bool.not_eq_false _ ▸ hmiss) hs hfails with
    hnot | ⟨st, hmeets, huncovered⟩
  · exact hnot hroot
  · exact huncovered (hcovered st hmeets)

end Engine

/-! A host that gives a puppy where an animal is declared. -/

namespace Kennel

open Registry (kennel extends_kennel_iff wellNamed_kennel)

def service : Service := ⟨"zoo", "http://zoo.test/odata"⟩

def registry : Registry :=
  match Registry.build service kennel with
  | .ok r => r
  | .error _ => {
      service, types := ∅, entitySets := ∅
      queryRoot := .queryRoot service ∅, mutationRoot := .mutationRoot service }

def puppy : Json.Members := [("@odata.type", .string "#Zoo.Puppy"), ("Breed", .string "Poodle")]

def pet : BoundHostField where
  name := "pet"
  service := "zoo"
  field := { type := .named "Animal", kind := .property }
  resolve := fun _ => .ok (.object puppy)

def engine : Engine where
  client := fun _ _ => .error .connection
  services := .ofList [("zoo", { registry })]
  hostFields := .ofList [("pet", pet)]

def request : RawRequest where
  query := "{pet{...on zoo_Puppy{Breed}}}"

def selections : List Graphql.Selection :=
  [.inline (some "zoo_Puppy") [] [.field "Breed" "Breed" [] [] []]]

def opened : OpenedOperation where
  env := ⟨∅, ∅⟩
  kind := .query
  fields := [⟨"pet", "pet", [], selections, []⟩]

def breed : Selection where
  responseKey := "Breed"
  name := "Breed"
  condition := some ⟨"zoo_Puppy", ["Puppy"]⟩

def field : RootField where
  responseKey := "pet"
  target := .host pet { registry }
  fields := [breed]

theorem parse_request : Graphql.Document.parse request.query =
    .ok ⟨.anonymous { kind := .query, selections := [.field "pet" "pet" [] [] selections] }, ∅⟩ := by
  decide +kernel

theorem ofRequest_request :
    (Operation.ofRequest engine request).run = some (.ok ⟨.query, [field]⟩) := by
  have hopened : OpenedOperation.ofRequest request = .ok opened := by
    rw [OpenedOperation.ofRequest, parse_request]
    rfl
  exact Operation.ofOpened_extends_ofRequest hopened 2 _ rfl

theorem below_kennel {name base : String}
    (h : TransGen (Extends kennel.structuredTypes) name base) : name = "Puppy" ∨ base = "Animal" := by
  obtain ⟨next, hext, hway⟩ := TransGen.head'_iff.1 h
  rcases extends_kennel_iff.1 hext with ⟨_, rfl⟩ | ⟨rfl, _⟩
  · rcases hway.cases_head with rfl | ⟨other, hother, _⟩
    · exact .inr rfl
    · simp [extends_kennel_iff] at hother
  · exact .inl rfl

/-- The only field that types of the kennel have again is their raw value. -/
theorem keeps_core : kennel.Keeps service id := by
  intro name base hway name' f g hf hg
  rw [Types.get?_ownMap] at hf hg
  by_cases hraw : name' = rawValueField
  · rw [if_pos hraw] at hf hg
    exact congrArg Field.core (Option.some.inj (hf.symm.trans hg))
  · rw [if_neg hraw] at hf hg
    have hPuppy : (Types.declared service kennel).ownFields kennel "Puppy" = [] := by rfl
    have hAnimal : (Types.declared service kennel).ownFields kennel "Animal" = [] := by rfl
    rcases below_kennel hway with rfl | rfl
    · rw [hPuppy] at hf
      cases hf
    · rw [hAnimal] at hg
      cases hg

theorem keepsFieldTypes : kennel.KeepsFieldTypes service :=
  fun name base hway field f g hf hg => congrArg Prod.fst (keeps_core name base hway field f g hf hg)

theorem build_kennel : Registry.build service kennel = .ok registry := by rfl

def start : Standing := ⟨"Animal", puppy, none, [.field "pet"], [breed]⟩

theorem typeKey_start : (start.entity registry).map (·.typeKey) = .ok "Puppy" := by rfl

theorem breed_puppy : ((registry.object? "Puppy").bind (·.fields.get? "Breed")).map (·.type) =
    some (.scalar .string) := by rfl

theorem meets_start : engine.Meets false .query field start :=
  ⟨{ registry }, start, rfl, ⟨.object puppy, rfl, .named rfl⟩, .refl⟩

/-- No object stands below the puppy. -/
theorem eq_start {st : Standing} (h : engine.Meets false .query field st) : st = start := by
  obtain ⟨s, first, hs, ⟨value, hvalue, hholds⟩, hway⟩ := h
  cases hs
  cases hvalue
  cases hholds
  rcases hway.cases_head with rfl | ⟨next, ⟨e, o, t, he, ho, ht, _, hhands⟩, _⟩
  · rfl
  · obtain ⟨_, _, f, hf, hkey⟩ := hhands.declared
    have htypeKey : e.typeKey = "Puppy" := by
      have heq := typeKey_start
      rw [show start.entity registry = .ok e from he] at heq
      exact Except.ok.inj heq
    have htype : f.type = .scalar .string := by
      have heq := breed_puppy
      rw [← htypeKey, show registry.object? e.typeKey = some o from ho, Option.bind_some] at heq
      cases List.mem_singleton.1 ht
      rw [show o.fields.get? "Breed" = some f from hf] at heq
      exact Option.some.inj heq
    rw [htype] at hkey
    cases hkey

theorem namesBelow_start : start.NamesBelow registry kennel := by
  intro odataType h
  cases h
  have hkey : Entity.discriminatorKey "#Zoo.Puppy" = "Puppy" := by rfl
  rw [hkey]
  have hDog : Extends kennel.structuredTypes "Puppy" "Dog" :=
    extends_kennel_iff.2 (.inr ⟨rfl, rfl⟩)
  have hAnimal : Extends kennel.structuredTypes "Dog" "Animal" :=
    extends_kennel_iff.2 (.inl ⟨rfl, rfl⟩)
  exact .inr (.inr (.head hDog (.single hAnimal)))

end Kennel

/-- A puppy has the breed that is asked for where only animals are declared. -/
theorem covered_of_kennel :
    Registry.kennel.WellNamed ∧ Registry.kennel.KeepsFieldTypes Kennel.service ∧
    Registry.build Kennel.service Registry.kennel = .ok Kennel.registry ∧
    (Operation.ofRequest Kennel.engine Kennel.request).run = some (.ok ⟨.query, [Kennel.field]⟩) ∧
    Kennel.engine.Meets false .query Kennel.field Kennel.start ∧
    (∀ st, Kennel.engine.Meets false .query Kennel.field st →
      st.NamesBelow Kennel.registry Registry.kennel) ∧
    (∀ st, Kennel.engine.Meets false .query Kennel.field st →
      st.Covered (Kennel.engine.execution { registry := Kennel.registry })) ∧
    Engine.RootCovered .query Kennel.field ∧
    ∀ error, (Kennel.engine.rootValue false .query Kennel.field [.field "pet"]).Gives
      (.error error) → error.isMiss = false := by
  have hdata : ∀ st, Kennel.engine.Meets false .query Kennel.field st →
      st.NamesBelow Kennel.registry Registry.kennel := by
    intro st h
    rw [Kennel.eq_start h]
    exact Kennel.namesBelow_start
  exact ⟨Registry.wellNamed_kennel, Kennel.keepsFieldTypes, Kennel.build_kennel,
    Kennel.ofRequest_request, Kennel.meets_start, hdata,
    Engine.covered_of_ofRequest Registry.wellNamed_kennel Kennel.keepsFieldTypes
      Kennel.build_kennel Kennel.ofRequest_request List.mem_cons_self rfl hdata⟩

end ODataGraph
