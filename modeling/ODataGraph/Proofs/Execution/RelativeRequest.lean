import ODataGraph.Proofs.Execution.Requests
import ODataGraph.Proofs.Execution.Run
import ODataGraph.Proofs.Graphql.Equality
import ODataGraph.Proofs.Url.Query

/-!
The URLs of what is requested under an object. They extend the object's address, which is its place
in an entity set or else the URL that it came from. The latter may have a query, and whatever is
requested under it then becomes a part of that query.
-/

namespace ODataGraph

open Relation (ReflTransGen)

/-- A field that is requested under the object that it is selected on. -/
def FieldKind.isRelative : FieldKind → Bool
  | .navigation | .function | .rawValue => true
  | _ => false

namespace Entity

variable {e : Entity}

theorem resource_of_source {call style : Url.CallStyle} {resource : String}
    (h : e.source call = .remote resource style) : e.resourceUrl = some resource := by
  rw [source] at h
  split at h
  · rename_i heq
    cases h
    exact heq
  · cases h

theorem originUrl_of_materialize {r : Registry} {declared : String} {data : Json.Members}
    {origin : Option String} (h : materialize r declared data origin = .ok e) :
    e.originUrl = origin ∧ e.data = data ∧
      ∃ type, e.canonicalUrl = canonicalUrlOf r type data := by
  rw [materialize] at h
  obtain ⟨key, _, h⟩ := bind_eq_ok_iff.1 h
  split at h
  · cases h
    exact ⟨rfl, rfl, _, rfl⟩
  · cases h

end Entity

theorem Field.resource_of_source {service : Service} {f : Field} {name resource : String}
    {e : Entity} {style : Url.CallStyle} (hf : f.kind.isRelative = true)
    (h : f.source service name (.entity e) = .remote resource style) :
    e.resourceUrl = some resource := by
  unfold source at h
  cases hk : f.kind <;> rw [hk] at h hf
  case navigation =>
    dsimp only at h
    split at h
    · cases h
    · exact Entity.resource_of_source h
  case function => exact Entity.resource_of_source h
  case rawValue => exact Entity.resource_of_source h
  all_goals cases hf

/-- An entity's address in a set has a query only if one of the parts it is made of has. -/
theorem Entity.query_mem_canonicalUrlOf {r : Registry} {type url : String} {data : Json.Members}
    (h : canonicalUrlOf r type data = some url) :
    ∃ set id, r.entitySets.get? type = some set ∧ (data.get? "id").bind idText = some id ∧
      ('?' ∈ url.toList ↔
        '?' ∈ r.service.baseUrl.toList ∨ '?' ∈ set.toList ∨ '?' ∈ id.toList) := by
  rw [canonicalUrlOf] at h
  obtain ⟨set, hset, h⟩ := Option.bind_eq_some_iff.1 h
  obtain ⟨id, hid, h⟩ := Option.bind_eq_some_iff.1 h
  obtain rfl := Option.some.inj h
  refine ⟨set, id, hset, hid, ?_⟩
  have hslash : '?' ∉ "/".toList := by decide
  simp only [String.toList_append, List.mem_append, Text.mem_trimEndSlashes (c := '?') (by decide),
    hslash, or_false, or_assoc]

theorem Json.Holds.origin_eq_none {r : Registry} {fields : List Selection} {type : TypeReference}
    {value : Json} {path : Path} {st : Standing} (h : Json.Holds r fields type value path st) :
    st.origin = none := by
  induction h with
  | named => rfl
  | nonNull _ ih => exact ih
  | item _ _ ih => exact ih

namespace Execution

variable {x : Execution} {o : ObjectType} {parent : Parent} {path : Path} {s : Selection}

namespace Call

variable (c : Call) (r : Registry)

/-- The properties that are asked for by name. -/
def select : Option (List String) :=
  if c.field.kind = .entitySet ∨ c.field.kind = .singleton then
    (elementKey? r c.field).bind (selectList r · c.selection.fields)
  else none

/-- What the call adds to the path of its resource. -/
def segment : String :=
  (Url.Parts.ofCall c.selection.name c.selection.arguments c.style none).path

/-- Whether the call adds a query. -/
def HasOptions : Prop :=
  Url.given c.selection.arguments true ≠ [] ∨ (c.select r).isSome = true

theorem url_eq : c.url r =
    Url.under c.resource c.selection.name c.selection.arguments c.style (c.select r) := rfl

theorem query_mem_url : '?' ∈ (c.url r).toList ↔ '?' ∈ c.resource.toList ∨ c.HasOptions r := by
  rw [url_eq, Url.query_mem_under, HasOptions]

theorem beforeFirst_url_iff : Text.beforeFirst '?' (c.url r) =
    Text.trimEndSlashes c.resource ++ c.segment ↔ '?' ∉ c.resource.toList := by
  rw [url_eq]
  exact Url.beforeFirst_under_iff _ _ _ _ _

end Call

/-- An object that came alone comes from the URL of a call. -/
theorem Hands.origin {st : Standing} (h : x.Hands o parent path s st) :
    st.origin = none ∨ ∃ c : Call, c.selection = s ∧ x.Calls o parent c ∧
      st.origin = some (c.url x.registry) := by
  cases h with
  | inline _ _ _ h => exact .inl h.origin_eq_none
  | remote hname hf hsource _ h =>
    cases h with
    | item => exact .inl rfl
    | whole => exact .inr ⟨⟨s, _, _, _⟩, rfl, ⟨hname, hf, hsource⟩, rfl⟩

end Execution

namespace Engine

open Execution (Call)

variable {e : Engine} {cancelled : Bool} {kind : RootKind} {f : RootField} {s : ExposedService}
variable {st : Standing}

/-- What is requested for a root field: selections on the root of a service, and on objects. -/
inductive Makes (e : Engine) (cancelled : Bool) (kind : RootKind) (f : RootField)
    (s : ExposedService) : Parent → Path → Call → Prop
  | root {c : Call} (htarget : f.target = .service s) (hc : c.selection ∈ f.fields)
      (hcall : (e.execution s cancelled).Calls (s.root kind) .root c) :
      Makes e cancelled kind f s .root [.field f.responseKey, .field c.selection.responseKey] c
  | below {st : Standing} {entity : Entity} {o : ObjectType} {c : Call}
      (hmeets : e.Meets cancelled kind f st) (he : st.entity s.registry = .ok entity)
      (ho : s.registry.object? entity.typeKey = some o) (hc : c.selection ∈ st.fields)
      (happlies : c.selection.appliesTo entity.typeKey = true)
      (hcall : (e.execution s cancelled).Calls o (.entity entity) c) :
      Makes e cancelled kind f s (.entity entity) (st.path ++ [.field c.selection.responseKey]) c

/-- An object that came alone has been requested for the root field. -/
theorem origin_of_meets (hs : f.target.service? = some s) (h : e.Meets cancelled kind f st) :
    st.origin = none ∨ ∃ parent path c, e.Makes cancelled kind f s parent path c ∧
      st.origin = some (c.url s.registry) := by
  obtain ⟨s', start, hs', hstarts, hway⟩ := h
  cases hs.symm.trans hs'
  rcases hway.cases_tail with rfl | ⟨before, hbefore, ent, o, t, he, ho, ht, happlies, hhands⟩
  · rw [Starts] at hstarts
    cases htarget : f.target with
    | typename =>
      rw [htarget] at hstarts
      exact hstarts.elim
    | service s' =>
      rw [htarget] at hs hstarts
      cases hs
      obtain ⟨t, ht, hhands⟩ := hstarts
      rcases hhands.origin with hnone | ⟨c, rfl, hcall, horigin⟩
      · exact .inl hnone
      · exact .inr ⟨_, _, c, .root htarget ht hcall, horigin⟩
    | host h s' =>
      rw [htarget] at hstarts
      obtain ⟨value, _, hholds⟩ := hstarts
      exact .inl hholds.origin_eq_none
  · rcases hhands.origin with hnone | ⟨c, rfl, hcall, horigin⟩
    · exact .inl hnone
    · have hmeets : e.Meets cancelled kind f before := ⟨s, start, hs, hstarts, hbefore⟩
      exact .inr ⟨_, _, c, .below hmeets he ho ht happlies hcall, horigin⟩

theorem makes_of_starts {start : Standing} {event : Event} (hs : f.target.service? = some s)
    (hstart : e.Starts cancelled kind f start)
    (hway : ReflTransGen (e.execution s cancelled).Next start st)
    (h : (e.execution s cancelled).AsksFor st event) :
    ∃ parent path c, e.Makes cancelled kind f s parent path c ∧
      (e.execution s cancelled).Requests path c.selection.name (c.url s.registry) event := by
  obtain ⟨entity, o, t, he, ho, ht, happlies, c, rfl, hcall, hrequests⟩ := h
  exact ⟨_, _, c, .below ⟨s, start, hs, hstart, hway⟩ he ho ht happlies hcall, hrequests⟩

theorem makes_of_root {outcome : Except FieldError Json} {events : Log} {event : Event}
    (htarget : f.target = .service s) (hrequest : event.isRequest = true)
    (h : ((e.execution s cancelled).resolveObject (s.root kind) .root f.fields
      [.field f.responseKey]).Runs outcome events) (hevent : event ∈ events) :
    ∃ parent path c, e.Makes cancelled kind f s parent path c ∧
      (e.execution s cancelled).Requests path c.selection.name (c.url s.registry) event := by
  rw [Execution.resolveObject_eq] at h
  obtain ⟨t, ht, _, _, _, hruns, hevent⟩ := Execution.exists_field_of_event h hevent
  rcases Execution.causes_of_resolveField hrequest t _ _ _ _ _ hruns hevent with
    ⟨c, rfl, hcall, hrequests⟩ | ⟨start, st, hstart, hway, hasks⟩
  · exact ⟨_, _, c, .root htarget ht hcall, hrequests⟩
  · have hstarts : e.Starts cancelled kind f start := by
      rw [Starts, htarget]
      exact ⟨t, ht, hstart⟩
    exact makes_of_starts (by rw [htarget]; rfl) hstarts hway hasks

theorem makes_of_host {b : BoundHostField} {value : Json} {outcome : Except FieldError Json}
    {events : Log} {event : Event} (htarget : f.target = .host b s)
    (hvalue : b.resolve f.arguments = .ok value) (hrequest : event.isRequest = true)
    (h : ((e.execution s cancelled).resolveValue b.field.type value f.fields
      [.field f.responseKey]).Runs outcome events) (hevent : event ∈ events) :
    ∃ parent path c, e.Makes cancelled kind f s parent path c ∧
      (e.execution s cancelled).Requests path c.selection.name (c.url s.registry) event := by
  obtain ⟨entity, position, _, _, hholds, hruns, hevent⟩ := Outline.exists_holds_of_event
    (Execution.appends_resolveEntity f.fields) (Execution.outline_of_resolveValue h) hevent
  obtain ⟨start, hstart, he, rfl⟩ : ∃ st, Json.Holds s.registry f.fields b.field.type value
      [.field f.responseKey] st ∧ st.entity s.registry = .ok entity ∧ st.path = position :=
    Outline.standing_of_ofValue hholds
  rw [← hstart.declared.2] at hruns
  obtain ⟨st, hway, hasks⟩ := Execution.asksFor_of_resolveEntity he
    (fun t _ => Execution.causes_of_resolveField hrequest t) hruns hevent
  have hstarts : e.Starts cancelled kind f start := by
    rw [Starts, htarget]
    exact ⟨value, hvalue, hstart⟩
  exact makes_of_starts (by rw [htarget]; rfl) hstarts hway hasks

theorem makes_of_rootValue {outcome : Except FieldError Json} {events : Log} {event : Event}
    (hs : f.target.service? = some s)
    (h : (e.rootValue cancelled kind f [.field f.responseKey]).Runs outcome events)
    (hevent : event ∈ events) (hrequest : event.isRequest = true) :
    ∃ parent path c, e.Makes cancelled kind f s parent path c ∧
      (e.execution s cancelled).Requests path c.selection.name (c.url s.registry) event := by
  rw [rootValue] at h
  cases htarget : f.target with
  | typename =>
    rw [htarget] at hs
    cases hs
  | service s' =>
    rw [htarget] at hs
    cases hs
    simp only [htarget] at h
    cases kind with
    | query =>
      obtain ⟨_, _, hruns, hevent⟩ := Execution.exists_run_of_resolveQueryRoot hrequest h hevent
      exact makes_of_root htarget hrequest hruns hevent
    | mutation => exact makes_of_root htarget hrequest h hevent
  | host b s' =>
    rw [htarget] at hs
    cases hs
    simp only [htarget] at h
    rcases h.cases_lift_bind with ⟨error, _, _, rfl⟩ | ⟨value, hvalue, hruns⟩
    · cases hevent
    · have hresolve : b.resolve f.arguments = .ok value := by
        cases hresolve : b.resolve f.arguments with
        | error _ =>
          rw [hresolve] at hvalue
          cases hvalue
        | ok value' =>
          rw [hresolve] at hvalue
          cases hvalue
          rfl
      exact makes_of_host htarget hresolve hrequest hruns hevent

/-- How the URL of a call extends the address of the object that it is made on. -/
structure Extends (e : Engine) (cancelled : Bool) (kind : RootKind) (f : RootField)
    (s : ExposedService) (entity : Entity) (c : Call) : Prop where
  /-- The call stands at the end of the path if the address has no query. -/
  ends : Text.beforeFirst '?' (c.url s.registry) =
    Text.trimEndSlashes c.resource ++ c.segment ↔ '?' ∉ c.resource.toList
  /-- If it has one, all of the call is a part of that. -/
  hidden : '?' ∈ c.resource.toList →
    Text.beforeFirst '?' (c.url s.registry) = Text.beforeFirst '?' c.resource
  /-- The address is the object's place in a set, or else the URL of the call that it came from,
  which has a query if that call is made under one or has options. -/
  address :
    (∃ type set id, entity.canonicalUrl = some c.resource ∧
      s.registry.entitySets.get? type = some set ∧
      (entity.data.get? "id").bind Entity.idText = some id ∧
      ('?' ∈ c.resource.toList ↔
        '?' ∈ s.registry.service.baseUrl.toList ∨ '?' ∈ set.toList ∨ '?' ∈ id.toList)) ∨
    (entity.canonicalUrl = none ∧ entity.originUrl = some c.resource ∧
      ∃ parent path origin, e.Makes cancelled kind f s parent path origin ∧
        c.resource = origin.url s.registry ∧
        ('?' ∈ c.resource.toList ↔
          '?' ∈ origin.resource.toList ∨ origin.HasOptions s.registry))

theorem extends_of_makes {entity : Entity} {path : Path} {c : Call}
    (hs : f.target.service? = some s)
    (h : e.Makes cancelled kind f s (.entity entity) path c)
    (hrelative : c.field.kind.isRelative = true) : e.Extends cancelled kind f s entity c := by
  refine ⟨c.beforeFirst_url_iff s.registry, Url.beforeFirst_under_of_mem _ _ _ _ _, ?_⟩
  cases h with
  | below hmeets he ho hc happlies hcall =>
    have hresource := Field.resource_of_source hrelative hcall.source
    obtain ⟨horigin, hdata, type, hcanonical⟩ := Entity.originUrl_of_materialize he
    rw [Entity.resourceUrl] at hresource
    cases hurl : entity.canonicalUrl with
    | some url =>
      left
      rw [hurl] at hresource
      cases hresource
      obtain ⟨set, id, hset, hid, hquery⟩ :=
        Entity.query_mem_canonicalUrlOf (hcanonical.symm.trans hurl)
      rw [← hdata] at hid
      exact ⟨type, set, id, rfl, hset, hid, hquery⟩
    | none =>
      right
      rw [hurl, Option.none_or] at hresource
      refine ⟨rfl, hresource, ?_⟩
      rcases origin_of_meets hs hmeets with hnone | ⟨parent, path, origin, hmakes, hsome⟩
      · rw [horigin, hnone] at hresource
        cases hresource
      · rw [horigin, hsome] at hresource
        have heq : origin.url s.registry = c.resource := Option.some.inj hresource
        refine ⟨parent, path, origin, hmakes, heq.symm, ?_⟩
        rw [← heq]
        exact origin.query_mem_url s.registry

theorem resource_of_root {path : Path} {c : Call} (h : e.Makes cancelled kind f s .root path c) :
    c.resource = s.registry.service.baseUrl := by
  cases h with
  | root htarget hc hcall =>
    have hsource := hcall.source
    unfold Field.source at hsource
    cases hk : c.field.kind <;> rw [hk] at hsource
    case entitySet => exact (Source.remote.inj hsource).1.symm
    case singleton => exact (Source.remote.inj hsource).1.symm
    all_goals cases hsource

/-- Everything that is requested for a root field is requested on the root of its service or on an
object. A request on an object extends the path of the object's address exactly if that address has
no query. -/
theorem extends_path_iff (e : Engine) (cancelled : Bool) (kind : RootKind) (f : RootField)
    (s : ExposedService) (hs : f.target.service? = some s) :
    (∀ event ∈ ((e.rootValue cancelled kind f [.field f.responseKey]).run.run []).2,
      event.isRequest = true → ∃ parent path c, e.Makes cancelled kind f s parent path c ∧
        (e.execution s cancelled).Requests path c.selection.name (c.url s.registry) event) ∧
    (∀ path c, e.Makes cancelled kind f s .root path c →
      c.resource = s.registry.service.baseUrl) ∧
    ∀ entity path c, e.Makes cancelled kind f s (.entity entity) path c →
      c.field.kind.isRelative = true → e.Extends cancelled kind f s entity c := by
  obtain ⟨outcome, events, hruns⟩ :=
    appends_rootValue e cancelled kind f [.field f.responseKey]
  rw [hruns.run_nil]
  refine ⟨?_, fun path c => resource_of_root, fun entity path c => extends_of_makes hs⟩
  intro event hevent hrequest
  exact makes_of_rootValue hs hruns hevent hrequest

end Engine

/-! A mascot that is requested with its name, and below it a friend. -/

namespace Mascot

def document : Csdl.Document where
  structuredTypes := [{
    name := "Pet"
    members := [{ name := "Name", type := "Edm.String" },
      { name := "Friend", type := "Zoo.Pet", kind := .navigation }] }]
  container := [{ kind := .singleton, name := "Mascot", type := "Zoo.Pet" }]

def registry : Registry :=
  match Registry.build Kennel.service document with
  | .ok r => r
  | .error _ => {
      service := Kennel.service, types := ∅, entitySets := ∅
      queryRoot := .queryRoot Kennel.service ∅, mutationRoot := .mutationRoot Kennel.service }

theorem build_document : Registry.build Kennel.service document = .ok registry := by rfl

def rexText : String := "\x7b\"Name\":\"Rex\"\x7d"

def named (name : String) : Http.Response where
  status := ⟨200⟩
  body := Text.Utf8.encode ("\x7b\"Name\":\"" ++ name ++ "\"\x7d")

/-- The property is asked for by name; the friend is requested by itself. -/
def mascotUrl : String := "http://zoo.test/odata/Mascot?$select=Name,id"

/-- A service that has the mascot, and some answer to whatever else it is asked. -/
def engine (answer : Http.Response) : Engine where
  client := fun _ request => .ok (if request.url = mascotUrl then named "Rex" else answer)
  services := .ofList [("zoo", { registry })]

/-- Both pets are answered. -/
def answered : Execution := (engine (named "Max")).execution { registry }

def request : RawRequest where
  query := "{zoo{Mascot{Name Friend{Name}}}}"

def petName : Selection := { responseKey := "Name", name := "Name" }

def friend : Selection := { responseKey := "Friend", name := "Friend", fields := [petName] }

def mascot : Selection :=
  { responseKey := "Mascot", name := "Mascot", fields := [petName, friend] }

def root : RootField where
  responseKey := "zoo"
  target := .service { registry }
  fields := [mascot]

def spelled : Graphql.Selection :=
  .field "Mascot" "Mascot" [] [] [.field "Name" "Name" [] [] [],
    .field "Friend" "Friend" [] [] [.field "Name" "Name" [] [] []]]

def opened : OpenedOperation where
  env := ⟨∅, ∅⟩
  kind := .query
  fields := [⟨"zoo", "zoo", [], [spelled], []⟩]

theorem parse_request : Graphql.Document.parse request.query =
    .ok ⟨.anonymous { kind := .query, selections := [.field "zoo" "zoo" [] [] [spelled]] },
      ∅⟩ := by
  decide +kernel

theorem ofRequest_request (answer : Http.Response) :
    (Operation.ofRequest (engine answer) request).run = some (.ok ⟨.query, [root]⟩) := by
  have hopened : OpenedOperation.ofRequest request = .ok opened := by
    rw [OpenedOperation.ofRequest, parse_request]
    rfl
  exact Operation.ofOpened_extends_ofRequest hopened 4 _ rfl

def mascotField : Field :=
  match registry.queryRoot.fields.get? "Mascot" with
  | some f => f
  | none => { type := .scalar .void, kind := .placeholder }

def pet : ObjectType :=
  match registry.object? "Pet" with
  | some o => o
  | none => registry.queryRoot

def friendField : Field :=
  match pet.fields.get? "Friend" with
  | some f => f
  | none => { type := .scalar .void, kind := .placeholder }

def rex : Json.Members := [("Name", .string "Rex")]

/-- The mascot is in no entity set, and has no id. -/
def entity : Entity where
  typeKey := "Pet"
  typeName := "zoo_Pet"
  baseUrl := "http://zoo.test/odata"
  canonicalUrl := none
  originUrl := some mascotUrl
  data := rex

def standing : Standing :=
  ⟨"Pet", rex, some mascotUrl, [.field "zoo", .field "Mascot"], [petName, friend]⟩

def call : Execution.Call := ⟨friend, friendField, mascotUrl, .segment⟩

def place : Path := [.field "zoo", .field "Mascot", .field "Friend"]

/-- The mascot is requested below the root of its service and answered as Rex. Its friend is
requested below the URL of the mascot. -/
theorem exchange :
    Execution.fieldUrl registry Kennel.service.baseUrl mascot mascotField .segment = mascotUrl ∧
    Text.Utf8.decodeLossy (named "Rex").body = rexText ∧
    Json.parse? rexText = some (.object rex) ∧
    call.url registry = "http://zoo.test/odata/Mascot?$select=Name,id/Friend" ∧
    Text.beforeFirst '?' (call.url registry) = "http://zoo.test/odata/Mascot" ∧
    call.segment = "/Friend" := by
  decide +kernel

theorem isValid_mascotUrl : Url.isValid mascotUrl = true := by decide

variable (answer : Http.Response)

theorem get_mascot : (((engine answer).execution { registry }).get
    [.field "zoo", .field "Mascot"] "Mascot" mascotUrl).Gives (.ok (some ⟨rexText⟩)) := by
  apply Execution.get_of_ask (Execution.runs_ask rfl isValid_mascotUrl rfl).gives
  rw [Execution.answer, ← exchange.2.1]
  rfl

theorem meets_standing : (engine answer).Meets false .query root standing := by
  obtain ⟨hurl, _, hparse, _⟩ := exchange
  have hhands : ((engine answer).execution { registry }).Hands registry.queryRoot .root
      [.field "zoo", .field "Mascot"] mascot standing := by
    have hname : mascot.name ≠ typenameField := by decide
    have hget := get_mascot answer
    have hholds : Payload.Holds registry mascot.fields mascotField.type ⟨rexText⟩ mascotUrl
        [.field "zoo", .field "Mascot"] standing := .whole rfl rfl rfl hparse
    rw [← hurl] at hget hholds
    exact .remote hname rfl rfl hget hholds
  exact ⟨{ registry }, standing, rfl, ⟨mascot, List.mem_cons_self, hhands⟩, .refl⟩

theorem makes_call :
    (engine answer).Makes false .query root { registry } (.entity entity) place call := by
  have hcall : ((engine answer).execution { registry }).Calls pet (.entity entity) call :=
    ⟨by decide, rfl, rfl⟩
  exact .below (meets_standing answer) rfl rfl (List.mem_cons_of_mem _ List.mem_cons_self) rfl hcall

/-- The friend is requested when the mascot has been answered. -/
theorem run_root : ((engine (named "Max")).rootValue false .query root [.field "zoo"]).run.run [] =
    (.ok (.object [("Mascot", .object [("Name", .string "Rex"),
      ("Friend", .object [("Name", .string "Max")])])]),
      [.send [.field "zoo", .field "Mascot"] { url := mascotUrl },
        .send place { url := "http://zoo.test/odata/Mascot?$select=Name,id/Friend" }]) := by
  change @Eq (Except FieldError Json × Log) _ _
  decide +kernel

end Mascot

/-- The friend of the mascot is requested in the query of the request for the mascot. -/
theorem extends_of_mascot : Mascot.root.target.service? = some { registry := Mascot.registry } ∧
    (Mascot.engine (Mascot.named "Max")).Makes false .query Mascot.root
      { registry := Mascot.registry } (.entity Mascot.entity) Mascot.place Mascot.call ∧
    (Mascot.engine (Mascot.named "Max")).Extends false .query Mascot.root
      { registry := Mascot.registry } Mascot.entity Mascot.call := by
  have hmakes := Mascot.makes_call (Mascot.named "Max")
  exact ⟨rfl, hmakes, (Engine.extends_path_iff _ false .query Mascot.root _ rfl).2.2 _ _ _ hmakes rfl⟩

/-- A request on an object does not always extend the path of the object's address. -/
theorem not_forall_ends_in_call : ¬ ∀ (e : Engine) (request : RawRequest) (operation : Operation)
    (f : RootField) (s : ExposedService) (entity : Entity) (path : Path) (c : Execution.Call),
    (Operation.ofRequest e request).run = some (.ok operation) → f ∈ operation.fields →
    f.target.service? = some s → e.Makes false operation.kind f s (.entity entity) path c →
    c.field.kind.isRelative = true →
    .send path { url := c.url s.registry } ∈
      ((e.rootValue false operation.kind f [.field f.responseKey]).run.run []).2 →
    ∃ start, Text.beforeFirst '?' (c.url s.registry) = start ++ c.segment := by
  intro h
  obtain ⟨_, _, _, hurl, hbefore, hsegment⟩ := Mascot.exchange
  have hsent : .send Mascot.place { url := Mascot.call.url Mascot.registry } ∈
      (((Mascot.engine (Mascot.named "Max")).rootValue false .query Mascot.root
        [.field "zoo"]).run.run []).2 := by
    rw [Mascot.run_root, hurl]
    exact List.mem_cons_of_mem _ List.mem_cons_self
  obtain ⟨start, hstart⟩ := h (Mascot.engine (Mascot.named "Max")) Mascot.request
    ⟨.query, [Mascot.root]⟩ Mascot.root { registry := Mascot.registry } Mascot.entity Mascot.place
    Mascot.call (Mascot.ofRequest_request _) List.mem_cons_self rfl (Mascot.makes_call _) rfl hsent
  rw [hbefore, hsegment] at hstart
  have hsuffix : "/Friend".toList <:+ "http://zoo.test/odata/Mascot".toList :=
    ⟨start.toList, by rw [hstart, String.toList_append]⟩
  exact absurd hsuffix (by decide)

end ODataGraph
