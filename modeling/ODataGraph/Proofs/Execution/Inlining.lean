import ODataGraph.Proofs.Execution.RelativeRequest

/-!
Objects that a service sends along with another one are resolved like those that it is asked for.
In both cases a navigation property comes to the same outline, and all that a request adds is logged
before anything in it is resolved.
-/

namespace ODataGraph

/-- The type without marks that it is not null. -/
def TypeReference.nullable : TypeReference → TypeReference
  | .nonNull type => type.nullable
  | type => type

/-- Lists of the objects or unions of a key, which may be marked as not null, as may their items. -/
def TypeReference.IsListOf (type : TypeReference) (key : String) : Prop :=
  ∃ element, type.nullable = .list element ∧ element.nullable = .named key

theorem TypeReference.IsListOf.isList {type : TypeReference} {key : String}
    (h : type.IsListOf key) : type.isList = true := by
  obtain ⟨element, hlist, _⟩ := h
  induction type with
  | list element ih => rfl
  | nonNull type ih => exact ih hlist
  | _ => cases hlist

theorem TypeReference.underlying_nullable (type : TypeReference) :
    type.nullable.underlying = type.underlying := by
  induction type with
  | nonNull type ih => exact ih
  | _ => rfl

theorem TypeReference.IsListOf.key?_eq {type : TypeReference} {key : String}
    (h : type.IsListOf key) : type.key? = some key := by
  obtain ⟨element, hlist, hitem⟩ := h
  rw [key?, ← underlying_nullable, hlist, underlying, ← underlying_nullable, hitem]
  rfl

/-- Hooks that let everything pass as it is. -/
structure Hooks.Passes (h : Hooks) : Prop where
  parses : ∀ hook ∈ h.preParse, ∀ context, hook context = .ok ()
  requests : ∀ hook ∈ h.preRequest, ∀ context request, hook context request = .ok (some request)

namespace Json

/-- A text is an object with one member, a collection of items. -/
structure IsCollection (text : String) (items : List Json) : Prop where
  single : ∃ member, Literal.ofText? text = some (.object [member])
  value : parse? text = some (.object [("value", .array items)])

theorem Literal.exists_of_value?_single {units : List StringUnit} {literal : Literal} {v : Json}
    (h : value? (.object [(units, literal)]) = some v) :
    ∃ name item, StringUnit.text? units = some name ∧
      literal.valueAt? (maxDepth - 1) = some item ∧ v = .object [(name, item)] := by
  rw [value?, maxDepth, valueAt?, if_neg (by decide), Option.map_eq_some_iff] at h
  obtain ⟨members, hmembers, rfl⟩ := h
  simp only [members?, Option.bind_eq_bind, Option.bind_eq_some_iff, Option.pure_def,
    Option.bind_some, Option.some.injEq] at hmembers
  obtain ⟨name, hname, item, hitem, rfl⟩ := hmembers
  exact ⟨name, item, hname, hitem, rfl⟩

theorem IsCollection.collection?_eq {text : String} {items : List Json}
    (h : IsCollection text items) : collection? text = some items := by
  obtain ⟨⟨units, literal⟩, hsingle⟩ := h.single
  have hvalue := h.value
  rw [parse?, hsingle] at hvalue
  obtain ⟨name, item, hname, hitem, heq⟩ := Literal.exists_of_value?_single hvalue
  cases heq
  have hfields : Literal.record? ["value"] false (.object [(units, literal)]) =
      some [("value", literal)] := by
    rw [Literal.record?, Literal.namedFields?, hname]
    rfl
  rw [collection?, hsingle]
  simp only [Option.bind_eq_bind, Option.bind_some, hfields, List.lookup_cons_self, hitem, array?]

end Json

namespace Http

/-- A service answers with a collection of items, as JSON. -/
structure Response.IsCollection (response : Response) (items : List Json) : Prop where
  success : response.status.isSuccess
  json : ∀ contentType ∈ response.contentType, isJson contentType
  body : Json.IsCollection (Text.Utf8.decodeLossy response.body) items

theorem Response.IsCollection.ofResponse_eq {response : Response} {items : List Json}
    (h : response.IsCollection items) (url : String) :
    Payload.ofResponse url response = .ok ⟨Text.Utf8.decodeLossy response.body⟩ := by
  rw [Payload.ofResponse, if_pos h.success]
  cases htype : response.contentType with
  | none => rfl
  | some contentType =>
    dsimp only
    rw [if_pos (h.json contentType htype)]

end Http

/-- A field is a navigation property that holds a list of the objects or unions of a key. -/
structure Field.NavigatesTo (f : Field) (r : Registry) (key : String) : Prop where
  kind : f.kind = .navigation
  type : f.type.IsListOf key
  composite : r.isComposite key = true

/-- Objects that can all be typed. -/
def Json.Materialize (r : Registry) (key : String) (items : List Json) : Prop :=
  ∀ item ∈ items, ∃ data e, item = .object data ∧ Entity.materialize r key data none = .ok e

namespace Outline

variable {r : Registry} {key : String} {data : Json.Members} {e : Entity}

theorem ofObject_eq_entity (h : Entity.materialize r key data none = .ok e) :
    ofObject r key data = .entity e := by
  rw [ofObject]
  split
  · rename_i e' h'
    rw [h] at h'
    cases h'
    rfl
  · rename_i error h'
    rw [h] at h'
    cases h'

theorem ofValue_nullable (type : TypeReference) (value : Json) :
    ofValue r type.nullable value = ofValue r type value := by
  induction type with
  | nonNull type ih =>
    rw [TypeReference.nullable, ih]
    cases value <;> simp only [ofValue]
  | _ => rfl

/-- A collection that comes along has the outline of one that is asked for. -/
theorem exists_entities {type : TypeReference} {items : List Json} (htype : type.IsListOf key)
    (hkey : r.isComposite key = true) (hitems : Json.Materialize r key items) :
    ∃ entities, items.mapM (Decoded.entityOf r key · none) = .ok entities ∧
      ofValue r type (.array items) = ofDecoded (.entities entities) := by
  obtain ⟨element, hlist, helement⟩ := htype
  rw [← ofValue_nullable, hlist, ofValue]
  induction items with
  | nil => exact ⟨[], rfl, rfl⟩
  | cons item rest ih =>
    obtain ⟨data, e, rfl, he⟩ := hitems item List.mem_cons_self
    obtain ⟨entities, hentities, houtline⟩ :=
      ih fun item hmem => hitems item (List.mem_cons_of_mem _ hmem)
    refine ⟨e :: entities, ?_, ?_⟩
    · have hitem : Decoded.entityOf r key (.object data) none = .ok e := he
      rw [List.mapM_cons, hitem, hentities]
      rfl
    · have hitem : ofValue r element (.object data) = .entity e := by
        rw [← ofValue_nullable, helement, ofValue, if_pos hkey]
        exact ofObject_eq_entity he
      rw [ofDecoded, list.injEq] at houtline
      rw [ofDecoded, List.map_cons, hitem, houtline, List.map_cons]

end Outline

namespace Execution

open Resolver (lift)

variable {x : Execution} {o : ObjectType} {f : Field} {s : Selection} {path : Path}
variable {e e' : Entity} {key resource : String} {items : List Json}

/-- The request for a field below a resource, before a hook changes it. -/
def requestFor (x : Execution) (resource : String) (s : Selection) (f : Field) : Http.Request where
  url := fieldUrl x.registry resource s f .segment
  headers := x.headers

/-- The service is asked for a field below a resource, and answers with a collection of items. -/
structure Serves (x : Execution) (resource : String) (s : Selection) (f : Field) (path : Path)
    (items : List Json) : Prop where
  passes : (x.hooks path).Passes
  valid : Url.isValid (x.requestFor resource s f).url = true
  connected : x.cancelled = false
  answer : ∃ response, x.client path (x.requestFor resource s f) = .ok response ∧
    response.IsCollection items

theorem runs_preParseField_of_passes (hhooks : (x.hooks path).Passes) (s : Selection) (f : Field) :
    ∃ events, (x.preParseField s f path).Runs (.ok ()) events := by
  rw [preParseField]
  split
  · cases hpreParse : (x.hooks path).preParse with
    | none => exact ⟨_, runs_preParse_none hpreParse⟩
    | some hook =>
      exact ⟨_, runs_preParse_of_passed hpreParse (hhooks.parses hook hpreParse _)⟩
  · exact ⟨_, Resolver.runs_pure ()⟩

theorem runs_ask_of_passes {url : String} (hhooks : (x.hooks path).Passes) (fieldName : String)
    (hvalid : Url.isValid url = true) (hcancelled : x.cancelled = false) :
    ∃ events, (x.ask path fieldName url).Runs (.ok (some { url, headers := x.headers })) events := by
  have hdecorated : x.decorated path fieldName url = .ok (some { url, headers := x.headers }) := by
    rw [decorated]
    split
    · rename_i hook hpreRequest
      exact hhooks.requests hook hpreRequest _ _
    · rfl
  obtain ⟨events, hasks, _⟩ := preRequest_runs x path fieldName url
  rw [hdecorated] at hasks
  refine ⟨events ++ [.send path { url, headers := x.headers }], hasks.bind ?_⟩
  dsimp only
  rw [dispatch, hvalid, hcancelled]
  exact (Resolver.runs_log _).bind (Resolver.runs_pure _)

/-- A collection that the service answers with has the outline that it would have in the data. -/
theorem read_eq_of_serves (hnavigates : f.NavigatesTo x.registry key)
    (hitems : Json.Materialize x.registry key items)
    (hserves : x.Serves resource s f path items) (url : String) :
    x.read path (.asked f url (x.requestFor resource s f)) =
      .ok (.ofValue x.registry f.type (.array items)) := by
  obtain ⟨response, hanswer, hcollection⟩ := hserves.answer
  obtain ⟨entities, hentities, houtline⟩ :=
    Outline.exists_entities hnavigates.type hnavigates.composite hitems
  have hpayload := hcollection.ofResponse_eq (x.requestFor resource s f).url
  have hread : Decoded.ofPayload x.registry f.type ⟨Text.Utf8.decodeLossy response.body⟩ url false =
      .ok (.entities entities) := by
    have hfilter : f.type.key?.filter x.registry.isComposite = some key := by
      rw [hnavigates.type.key?_eq, Option.filter_some, if_pos hnavigates.composite]
    rw [Decoded.ofPayload, if_pos (.inl hnavigates.type.isList), hfilter]
    dsimp only
    rw [Decoded.collection, hcollection.body.collection?_eq]
    simp only [hentities]
    rfl
  have hanswered : x.answer path (x.requestFor resource s f) =
      .ok ⟨Text.Utf8.decodeLossy response.body⟩ := by
    rw [answer, hanswer]
    exact hpayload
  rw [houtline]
  exact read_of_answer hanswered hread

theorem runs_lookUp_inline (hname : s.name ≠ typenameField)
    (hf : o.fields.get? s.name = some f) (hkind : f.kind = .navigation)
    (hinline : e.data.get? s.name = some (.array items)) :
    (x.lookUp o (.entity e) s path).Runs
      (.ok (.outline (.ofValue x.registry f.type (.array items)))) [] := by
  rw [lookUp, if_neg hname, hf]
  simp only [Field.source, hkind, hinline]
  exact Resolver.runs_pure _

theorem runs_lookUp_served (hname : s.name ≠ typenameField)
    (hf : o.fields.get? s.name = some f) (hkind : f.kind = .navigation)
    (hlacks : e.data.get? s.name = none) (hresource : e.resourceUrl = some resource)
    (hserves : x.Serves resource s f path items) :
    ∃ asked, (x.lookUp o (.entity e) s path).Runs
      (.ok (.asked f (fieldUrl x.registry resource s f .segment)
        (x.requestFor resource s f))) asked := by
  obtain ⟨parses, hparses⟩ := runs_preParseField_of_passes hserves.passes s f
  obtain ⟨asks, hasks⟩ :=
    runs_ask_of_passes hserves.passes s.name hserves.valid hserves.connected
  rw [lookUp, if_neg hname, hf]
  simp only [Field.source, hkind, hlacks, Entity.source, hresource]
  exact ⟨_, runs_request hparses hasks⟩

/-- Whether a list of objects comes with an entity or is asked for makes no difference to what a
navigation property comes to and to what is logged below it. -/
theorem resolveField_served_eq_inline (x : Execution) {o : ObjectType} {f : Field} {s : Selection}
    {path : Path} {e e' : Entity} {key resource : String} {items : List Json}
    (hf : o.fields.get? s.name = some f) (hnavigates : f.NavigatesTo x.registry key)
    (hitems : Json.Materialize x.registry key items)
    (hinline : e.data.get? s.name = some (.array items)) (hlacks : e'.data.get? s.name = none)
    (hresource : e'.resourceUrl = some resource) (hserves : x.Serves resource s f path items) :
    ∃ outcome asked events, (x.resolveField o (.entity e) path s).Runs outcome events ∧
      (x.resolveField o (.entity e') path s).Runs outcome (asked ++ events) ∧
      Log.errors asked = [] := by
  by_cases hname : s.name = typenameField
  · have htypename : ∀ e, x.resolveField o (.entity e) path s =
        Resolver.recover x.exposure path (pure (.string o.name)) := by
      intro e
      rw [resolveField_eq, fieldValue, if_pos hname]
    have hruns : ∀ e, (x.resolveField o (.entity e) path s).Runs (.ok (.string o.name)) [] := by
      intro e
      rw [htypename]
      exact (Resolver.runs_pure _).recover_ok
    exact ⟨_, [], [], hruns e, hruns e', rfl⟩
  obtain ⟨asked, hasked⟩ := runs_lookUp_served hname hf hnavigates.kind hlacks hresource hserves
  have happends : (Resolver.recover x.exposure path ((Outline.ofValue x.registry f.type
      (.array items)).resolve (x.resolveEntity s.fields) path)).Appends :=
    (Outline.appends_resolve (appends_resolveEntity s.fields) _ path).recover
  obtain ⟨outcome, events, hruns⟩ := happends
  refine ⟨outcome, asked, events, ?_, ?_, (lookingUp_of_lookUp hasked).errors_eq_nil⟩
  · have hfound : (x.lookUp o (.entity e) s path).Runs _ [] :=
      runs_lookUp_inline hname hf hnavigates.kind hinline
    exact runs_resolveField_of_lookUp hfound rfl hruns
  · exact runs_resolveField_of_lookUp hasked (read_eq_of_serves hnavigates hitems hserves _) hruns

end Execution

namespace Pack

def document : Csdl.Document where
  structuredTypes := [{
    name := "Dog"
    members := [{ name := "Name", type := "Edm.String" },
      { name := "Friends", type := "Collection(Zoo.Dog)", kind := .navigation }] }]
  container := [{ kind := .entitySet, name := "Dogs", type := "Zoo.Dog" }]

def registry : Registry :=
  match Registry.build Kennel.service document with
  | .ok r => r
  | .error _ => {
      service := Kennel.service, types := ∅, entitySets := ∅
      queryRoot := .queryRoot Kennel.service ∅, mutationRoot := .mutationRoot Kennel.service }

def dog : ObjectType :=
  match registry.object? "Dog" with
  | some o => o
  | none => registry.queryRoot

def friendsField : Field :=
  match dog.fields.get? "Friends" with
  | some f => f
  | none => { type := .scalar .void, kind := .placeholder }

def rexUrl : String := "http://zoo.test/odata/Dogs/1"

/-- A dog that some data are known of besides its name. -/
def rex (more : Json.Members) : Entity where
  typeKey := "Dog"
  typeName := "zoo_Dog"
  baseUrl := Kennel.service.baseUrl
  canonicalUrl := some rexUrl
  originUrl := none
  data := ("Name", .string "Rex") :: more

def max : Json := .object [("id", .string "2"), ("Name", .string "Max")]

def friendsText : String := "\x7b\"value\":[\x7b\"id\":\"2\",\"Name\":\"Max\"\x7d]\x7d"

def answer : Http.Response where
  status := ⟨200⟩
  body := Text.Utf8.encode friendsText

/-- One dog has a friend, whose own friends are not to be had. -/
def execution : Execution where
  registry
  client _ request :=
    .ok (if request.url = "http://zoo.test/odata/Dogs/1/Friends" then answer
      else { status := ⟨500⟩, body := [] })

def name : Selection := { responseKey := "Name", name := "Name" }

def friends : Selection where
  responseKey := "friends"
  name := "Friends"
  fields := [name, { responseKey := "more", name := "Friends", fields := [name] }]

def isSingle : Option Json.Literal → Bool
  | some (.object [_]) => true
  | _ => false

/-- The friends are requested below the address of the dog, and one is answered. -/
theorem exchange :
    (execution.requestFor rexUrl friends friendsField).url =
      "http://zoo.test/odata/Dogs/1/Friends" ∧
    Url.isValid (execution.requestFor rexUrl friends friendsField).url = true ∧
    Text.Utf8.decodeLossy answer.body = friendsText ∧
    isSingle (Json.Literal.ofText? friendsText) = true ∧
    Json.parse? friendsText = some (.object [("value", .array [max])]) := by
  decide +kernel

theorem isCollection_friendsText : Json.IsCollection friendsText [max] := by
  obtain ⟨_, _, _, hsingle, hvalue⟩ := exchange
  refine ⟨?_, hvalue⟩
  generalize Json.Literal.ofText? friendsText = literal at hsingle
  unfold isSingle at hsingle
  split at hsingle
  · exact ⟨_, rfl⟩
  · cases hsingle

theorem serves_friends : execution.Serves rexUrl friends friendsField [.field "friends"] [max] where
  passes := ⟨nofun, nofun⟩
  valid := exchange.2.1
  connected := rfl
  answer := by
    obtain ⟨hurl, _, htext, _⟩ := exchange
    refine ⟨answer, ?_, rfl, nofun, ?_⟩
    · have hclient : ∀ request, execution.client [.field "friends"] request =
          .ok (if request.url = "http://zoo.test/odata/Dogs/1/Friends" then answer
            else { status := ⟨500⟩, body := [] }) := fun _ => rfl
      rw [hclient, if_pos hurl]
    · rw [htext]
      exact isCollection_friendsText

theorem materialize_max : Json.Materialize registry "Dog" [max] := by
  intro item hitem
  cases List.mem_singleton.1 hitem
  exact ⟨_, _, rfl, rfl⟩

/-- The friend is there with its name, and one error is listed for its own friends. -/
theorem run_inline : ∃ events, ((execution.resolveField dog
    (.entity (rex [("Friends", .array [max])])) [.field "friends"] friends).run.run []) =
      (.ok (.array [.object [("Name", .string "Max"), ("more", .null)]]), events) ∧
    events.errors.map (·.path) = [some [.field "friends", .index 0, .field "more"]] := by
  have hvalue : ((execution.resolveField dog (.entity (rex [("Friends", .array [max])]))
      [.field "friends"] friends).run.run []).1 =
        .ok (.array [.object [("Name", .string "Max"), ("more", .null)]]) := by
    decide +kernel
  exact ⟨_, Prod.ext hvalue rfl, by decide +kernel⟩

end Pack

open Pack in
/-- The friend is the same, and so is the error for its own friends. -/
theorem resolveField_served_eq_inline_of_pack : ∃ asked events,
    (execution.resolveField dog (.entity (rex [("Friends", .array [max])])) [.field "friends"]
      friends).Runs (.ok (.array [.object [("Name", .string "Max"), ("more", .null)]])) events ∧
    (execution.resolveField dog (.entity (rex [])) [.field "friends"] friends).Runs
      (.ok (.array [.object [("Name", .string "Max"), ("more", .null)]])) (asked ++ events) ∧
    Log.errors asked = [] ∧
    events.errors.map (·.path) = [some [.field "friends", .index 0, .field "more"]] := by
  have hnavigates : friendsField.NavigatesTo registry "Dog" := ⟨rfl, ⟨_, rfl, rfl⟩, rfl⟩
  have hfield : dog.fields.get? friends.name = some friendsField := rfl
  have hcomes : (rex [("Friends", .array [max])]).data.get? friends.name = some (.array [max]) := rfl
  have hlacks : (rex []).data.get? friends.name = none := rfl
  have hresource : (rex []).resourceUrl = some rexUrl := rfl
  obtain ⟨outcome, asked, events, hinline, hserved, hasked⟩ :=
    execution.resolveField_served_eq_inline hfield hnavigates materialize_max hcomes hlacks
      hresource serves_friends
  obtain ⟨events', hrun, herrors⟩ := run_inline
  obtain ⟨rfl, rfl⟩ := Prod.mk.inj (hinline.run_nil.symm.trans hrun)
  exact ⟨asked, events, hinline, hserved, hasked, herrors⟩

end ODataGraph
