import ODataGraph.Proofs.Execution.Miss
import ODataGraph.Proofs.Execution.Outline

/-!
What the run of a field consists of. Looking a field up sends at most one request, for that field,
and lists no error. What the service answers is either recovered, so that the field is null and one
error is listed at its path, or the objects in it are resolved below that path.
-/

namespace ODataGraph

section

variable {onEntity : Entity → Path → Resolver Json}

namespace Outline

theorem appends_resolve
    (hentity : ∀ e path, (onEntity e path).Appends) (outline : Outline) (path : Path) :
    (outline.resolve onEntity path).Appends := by
  induction outline using induction_items generalizing path with
  | leaf v =>
    rw [resolve_leaf]
    exact Resolver.appends_pure v
  | failed error fatal =>
    rw [resolve_failed]
    exact Resolver.appends_throw error
  | entity e =>
    rw [resolve_entity]
    exact hentity e path
  | list items ih =>
    rw [resolve_list]
    apply Resolver.appends_assemble
    intro t ht
    obtain ⟨⟨item, i⟩, hitem, rfl⟩ := List.mem_map.1 ht
    exact ih item (List.fst_mem_of_mem_zipIdx hitem)

/-- What is resolved in an outline recovers on its own, so that no recoverable error gets out. -/
theorem not_recoverable_of_resolve {error : FieldError}
    (hentity : ∀ e path error, (onEntity e path).Gives (.error error) → error.isRecoverable = false)
    {outline : Outline} {path : Path} (h : (outline.resolve onEntity path).Gives (.error error)) :
    error.isRecoverable = false := by
  induction outline using induction_items generalizing path with
  | leaf v =>
    rw [resolve_leaf, Resolver.gives_pure] at h
    cases h
  | failed given fatal =>
    rw [resolve_failed, Resolver.gives_throw] at h
    cases h
    exact fatal
  | entity e =>
    rw [resolve_entity] at h
    exact hentity e path error h
  | list items ih =>
    rw [resolve_list] at h
    obtain ⟨t, ht, h⟩ := Resolver.exists_of_assemble_error h
    obtain ⟨⟨item, i⟩, hitem, rfl⟩ := List.mem_map.1 ht
    exact ih item (List.fst_mem_of_mem_zipIdx hitem) h

end Outline

end

namespace Execution

open Resolver (Task lift)

variable {x : Execution} {o : ObjectType} {parent : Parent} {path : Path} {s : Selection}
variable {fields : List Selection}

/-- What the host makes of the request for a field. -/
def decorated (x : Execution) (path : Path) (fieldName url : String) :
    Except HookError (Option Http.Request) :=
  let request : Http.Request := { url, headers := x.headers }
  match (x.hooks path).preRequest with
  | some hook => hook ⟨x.service, fieldName⟩ request
  | none => .ok (some request)

/-- Events that belong to the request of a field to a URL: the host is asked about it, and what the
host makes of it is sent. -/
inductive Requests (x : Execution) (path : Path) (fieldName url : String) : Event → Prop
  | ask : Requests x path fieldName url (.ask ⟨x.service, fieldName⟩ url)
  | send {request : Http.Request} (h : x.decorated path fieldName url = .ok (some request)) :
      Requests x path fieldName url (.send path request)

/-- A run that asks about one request, and sends it last if it comes to it. -/
structure Asking (x : Execution) (path : Path) (fieldName url : String)
    (outcome : Except FieldError (Option Http.Request)) (events : Log) : Prop where
  requests : ∀ event ∈ events, x.Requests path fieldName url event
  fatal : ∀ error, outcome = .error error → error.isRecoverable = false
  sent : ∀ position request, .send position request ∈ events →
    position = path ∧ outcome = .ok (some request)

theorem fatal_of_hook {α : Type} {answer : Except HookError α} {error : FieldError}
    (h : answer.mapError .hook = .error error) : error.isRecoverable = false := by
  cases answer with
  | error e =>
    cases h
    rfl
  | ok a => cases h

theorem runs_preParse (fieldName typeName : String)
    {hook : ParseContext → Except HookError Unit} (hhook : (x.hooks path).preParse = some hook) :
    (x.preParse path fieldName typeName).Runs
      ((hook ⟨x.service, fieldName, typeName⟩).mapError .hook)
      [.parse ⟨x.service, fieldName, typeName⟩] := by
  rw [preParse, hhook]
  exact (Resolver.runs_log _).bind (Resolver.runs_lift _)

theorem runs_preParse_of_passed {fieldName typeName : String}
    {hook : ParseContext → Except HookError Unit} (hhook : (x.hooks path).preParse = some hook)
    (hpassed : hook ⟨x.service, fieldName, typeName⟩ = .ok ()) :
    (x.preParse path fieldName typeName).Runs (.ok ())
      [.parse ⟨x.service, fieldName, typeName⟩] := by
  have hruns := runs_preParse fieldName typeName hhook
  rw [hpassed] at hruns
  exact hruns

theorem runs_preParse_none {fieldName typeName : String} (hhook : (x.hooks path).preParse = none) :
    (x.preParse path fieldName typeName).Runs (.ok ()) [] := by
  rw [preParse, hhook]
  exact Resolver.runs_pure ()

/-- The host is told of nothing but the field. -/
theorem eq_parse_of_preParse {fieldName typeName : String} {outcome : Except FieldError Unit}
    {events : Log} {event : Event} (h : (x.preParse path fieldName typeName).Runs outcome events)
    (hevent : event ∈ events) : event = .parse ⟨x.service, fieldName, typeName⟩ := by
  cases hhook : (x.hooks path).preParse with
  | none =>
    obtain ⟨_, rfl⟩ := h.unique (runs_preParse_none hhook)
    cases hevent
  | some hook =>
    obtain ⟨_, rfl⟩ := h.unique (runs_preParse _ _ hhook)
    exact List.mem_singleton.1 hevent

theorem parse_of_preParse {fieldName typeName : String} {outcome : Except FieldError Unit}
    {events : Log} (h : (x.preParse path fieldName typeName).Runs outcome events) :
    (∀ event ∈ events, ∃ context, event = .parse context) ∧
      ∀ error, outcome = .error error → error.isRecoverable = false := by
  refine ⟨fun event hevent => ⟨_, eq_parse_of_preParse h hevent⟩, ?_⟩
  cases hhook : (x.hooks path).preParse with
  | none =>
    obtain ⟨rfl, _⟩ := h.unique (runs_preParse_none hhook)
    exact nofun
  | some hook =>
    obtain ⟨rfl, _⟩ := h.unique (runs_preParse _ _ hhook)
    exact fun error herror => fatal_of_hook herror

theorem preRequest_runs (x : Execution) (path : Path) (fieldName url : String) :
    ∃ events, (x.preRequest path fieldName { url, headers := x.headers }).Runs
        ((x.decorated path fieldName url).mapError .hook) events ∧
      ∀ event ∈ events, event = .ask ⟨x.service, fieldName⟩ url := by
  rw [preRequest, decorated]
  cases (x.hooks path).preRequest with
  | none =>
    refine ⟨[], Resolver.runs_pure _, ?_⟩
    rintro event ⟨⟩
  | some hook =>
    refine ⟨_, (Resolver.runs_log _).bind (Resolver.runs_lift _), ?_⟩
    intro event hevent
    exact List.mem_singleton.1 hevent

theorem dispatch_runs (x : Execution) (path : Path) (request : Http.Request) :
    (∃ error, error.isRecoverable = false ∧ (x.dispatch path request).Runs (.error error) []) ∨
      (x.dispatch path request).Runs (.ok (some request)) [.send path request] := by
  rw [dispatch]
  split
  · exact .inl ⟨_, rfl, Resolver.runs_throw _⟩
  split
  · exact .inl ⟨_, rfl, Resolver.runs_throw _⟩
  · exact .inr ((Resolver.runs_log _).bind (Resolver.runs_pure _))

theorem asking_of_ask {fieldName url : String} {outcome : Except FieldError (Option Http.Request)}
    {events : Log} (h : (x.ask path fieldName url).Runs outcome events) :
    x.Asking path fieldName url outcome events := by
  obtain ⟨asks, hasks, hevents⟩ := preRequest_runs x path fieldName url
  have hrequests : ∀ event ∈ asks, x.Requests path fieldName url event := by
    intro event hevent
    rw [hevents event hevent]
    exact .ask
  have hunsent : ∀ position request, .send position request ∉ asks := by
    intro position request hmem
    cases hevents _ hmem
  cases hdecorated : x.decorated path fieldName url with
  | error e =>
    rw [hdecorated] at hasks
    obtain ⟨rfl, rfl⟩ := h.unique hasks.bind_error
    refine ⟨hrequests, ?_, fun position request hmem => absurd hmem (hunsent position request)⟩
    intro error herror
    cases herror
    rfl
  | ok request? =>
    rw [hdecorated] at hasks
    cases request? with
    | none =>
      obtain ⟨rfl, rfl⟩ := h.unique (hasks.bind (Resolver.runs_pure none))
      rw [List.append_nil]
      exact ⟨hrequests, nofun, fun position request hmem => absurd hmem (hunsent position request)⟩
    | some request =>
      rcases dispatch_runs x path request with ⟨error, hfatal, hfails⟩ | hsends
      · obtain ⟨rfl, rfl⟩ := h.unique (hasks.bind hfails)
        rw [List.append_nil]
        refine ⟨hrequests, ?_, fun position request hmem => absurd hmem (hunsent position request)⟩
        intro error' herror
        cases herror
        exact hfatal
      · obtain ⟨rfl, rfl⟩ := h.unique (hasks.bind hsends)
        refine ⟨?_, nofun, ?_⟩
        · intro event hevent
          rcases List.mem_append.1 hevent with hevent | hevent
          · exact hrequests event hevent
          · rw [List.mem_singleton.1 hevent]
            exact .send hdecorated
        · intro position request' hmem
          have hlast := (List.mem_append.1 hmem).resolve_left (hunsent position request')
          cases List.mem_singleton.1 hlast
          exact ⟨rfl, rfl⟩

/-- Without a hook a valid request is sent as it is. -/
theorem runs_ask {fieldName url : String} (hhook : (x.hooks path).preRequest = none)
    (hvalid : Url.isValid url = true) (hcancelled : x.cancelled = false) :
    (x.ask path fieldName url).Runs (.ok (some { url, headers := x.headers }))
      [.send path { url, headers := x.headers }] := by
  have hasked : x.ask path fieldName url = x.dispatch path { url, headers := x.headers } := by
    rw [ask, preRequest, hhook, pure_bind]
  rw [hasked, dispatch, hvalid, hcancelled]
  exact (Resolver.runs_log _).bind (Resolver.runs_pure _)

theorem appends_preParse (x : Execution) (path : Path) (fieldName typeName : String) :
    (x.preParse path fieldName typeName).Appends := by
  cases hhook : (x.hooks path).preParse with
  | none => exact ⟨_, _, runs_preParse_none hhook⟩
  | some hook => exact ⟨_, _, runs_preParse _ _ hhook⟩

theorem appends_preRequest (x : Execution) (path : Path) (fieldName : String)
    (request : Http.Request) : (x.preRequest path fieldName request).Appends := by
  rw [preRequest]
  split
  · apply (Resolver.appends_log _).bind
    intro _
    exact Resolver.appends_lift _
  · exact Resolver.appends_pure _

theorem appends_ask (x : Execution) (path : Path) (fieldName url : String) :
    (x.ask path fieldName url).Appends := by
  apply (appends_preRequest x path fieldName _).bind
  intro request?
  cases request? with
  | none => exact Resolver.appends_pure none
  | some request =>
    rcases dispatch_runs x path request with ⟨_, _, hfails⟩ | hsends
    · exact ⟨_, _, hfails⟩
    · exact ⟨_, _, hsends⟩

theorem appends_preParseField (x : Execution) (s : Selection) (f : Field) (path : Path) :
    (x.preParseField s f path).Appends := by
  rw [preParseField]
  split
  · exact appends_preParse x path _ _
  · exact Resolver.appends_pure ()

theorem appends_request (x : Execution) (resource : String) (s : Selection) (f : Field)
    (call : Url.CallStyle) (path : Path) : (x.request resource s f call path).Appends := by
  apply (appends_preParseField x s f path).bind
  intro _
  apply (appends_ask x path _ _).bind
  intro request?
  exact Resolver.appends_pure _

theorem appends_lookUp (x : Execution) (o : ObjectType) (parent : Parent) (s : Selection)
    (path : Path) : (x.lookUp o parent s path).Appends := by
  rw [lookUp]
  split
  · exact Resolver.appends_pure _
  dsimp only
  split
  · split
    · exact Resolver.appends_pure _
    · exact Resolver.appends_pure _
    · exact Resolver.appends_pure _
    · exact appends_request x _ s _ _ path
  · exact Resolver.appends_pure _

theorem appends_fieldTasks_of
    (h : ∀ s ∈ fields, ∀ path, (x.resolveField o parent path s).Appends) :
    ∀ t ∈ x.fieldTasks o parent fields, ∀ path, (t.2 path).Appends := by
  intro t ht
  obtain ⟨s, hs, rfl⟩ := List.mem_map.1 ht
  exact h s (List.mem_of_mem_filter hs)

theorem appends_resolveEntity_of
    (h : ∀ s ∈ fields, ∀ o parent path, (x.resolveField o parent path s).Appends) (e : Entity)
    (path : Path) : (x.resolveEntity fields e path).Appends := by
  rcases cases_resolveEntity x fields e with heq | ⟨o, _, heq⟩
  · rw [heq]
    exact Resolver.appends_throw _
  · rw [heq]
    exact Resolver.appends_assemble (appends_fieldTasks_of fun s hs => h s hs o (.entity e))

theorem appends_resolveField (s : Selection) :
    ∀ o parent path, (x.resolveField o parent path s).Appends := by
  induction s using Selection.induction_below with
  | h s ih =>
    intro o parent path
    have hentity := appends_resolveEntity_of ih
    rw [resolveField_eq, fieldValue_eq_steps]
    apply Resolver.Appends.recover
    apply (appends_lookUp x o parent s path).bind
    intro found
    apply (Resolver.appends_lift _).bind
    intro outline
    exact outline.appends_resolve hentity path

theorem appends_fieldTasks (x : Execution) (o : ObjectType) (parent : Parent)
    (fields : List Selection) : ∀ t ∈ x.fieldTasks o parent fields, ∀ path, (t.2 path).Appends :=
  appends_fieldTasks_of fun s _ => appends_resolveField s o parent

theorem appends_resolveEntity (fields : List Selection) (e : Entity) (path : Path) :
    (x.resolveEntity fields e path).Appends :=
  appends_resolveEntity_of (fun s _ => appends_resolveField s) e path

/-- A field that is requested under a resource. -/
structure Call where
  selection : Selection
  field : Field
  resource : String
  style : Url.CallStyle

def Call.url (c : Call) (r : Registry) : String :=
  fieldUrl r c.resource c.selection c.field c.style

/-- What is selected on an object has to be requested. -/
structure Calls (x : Execution) (o : ObjectType) (parent : Parent) (c : Call) : Prop where
  name : c.selection.name ≠ typenameField
  field : o.fields.get? c.selection.name = some c.field
  source : c.field.source x.service c.selection.name parent = .remote c.resource c.style

/-- An event of the request for a selection on an object. -/
def RequestsFor (x : Execution) (o : ObjectType) (parent : Parent) (path : Path) (s : Selection)
    (event : Event) : Prop :=
  ∃ c : Call, c.selection = s ∧ x.Calls o parent c ∧
    x.Requests path s.name (c.url x.registry) event

/-- A run that looks a field up: whatever is sent is the request that its result waits for. -/
structure LookingUp (x : Execution) (o : ObjectType) (parent : Parent) (path : Path) (s : Selection)
    (outcome : Except FieldError Found) (events : Log) : Prop where
  event : ∀ event ∈ events, (∃ context, event = .parse context) ∨
    x.RequestsFor o parent path s event
  fatal : ∀ error, outcome = .error error → error.isRecoverable = false
  sent : ∀ position request, .send position request ∈ events →
    position = path ∧ ∃ f url, outcome = .ok (.asked f url request)

theorem LookingUp.errors_eq_nil {outcome : Except FieldError Found} {events : Log}
    (h : x.LookingUp o parent path s outcome events) : events.errors = [] := by
  rw [Log.errors, List.filterMap_eq_nil_iff]
  intro event hevent
  rcases h.event event hevent with ⟨context, rfl⟩ | ⟨_, _, _, hrequests⟩
  · rfl
  · cases hrequests <;> rfl

theorem parse_of_preParseField {f : Field} {outcome : Except FieldError Unit} {events : Log}
    (h : (x.preParseField s f path).Runs outcome events) :
    (∀ event ∈ events, ∃ context, event = .parse context) ∧
      ∀ error, outcome = .error error → error.isRecoverable = false := by
  rw [preParseField] at h
  split at h
  · exact parse_of_preParse h
  · obtain ⟨rfl, rfl⟩ := Resolver.runs_pure_iff.1 h
    constructor <;> rintro _ ⟨⟩

theorem LookingUp.of_parses {outcome : Except FieldError Found} {events : Log}
    (hparse : ∀ event ∈ events, ∃ context, event = .parse context)
    (hfatal : ∀ error, outcome = .error error → error.isRecoverable = false) :
    x.LookingUp o parent path s outcome events := by
  refine ⟨fun event hevent => .inl (hparse event hevent), hfatal, ?_⟩
  intro position request hmem
  obtain ⟨_, heq⟩ := hparse _ hmem
  cases heq

theorem LookingUp.append_parses {outcome : Except FieldError Found} {parses events : Log}
    (hparse : ∀ event ∈ parses, ∃ context, event = .parse context)
    (h : x.LookingUp o parent path s outcome events) :
    x.LookingUp o parent path s outcome (parses ++ events) := by
  refine ⟨?_, h.fatal, ?_⟩
  · intro event hevent
    rcases List.mem_append.1 hevent with hevent | hevent
    · exact .inl (hparse event hevent)
    · exact h.event event hevent
  · intro position request hmem
    rcases List.mem_append.1 hmem with hmem | hmem
    · obtain ⟨_, heq⟩ := hparse _ hmem
      cases heq
    · exact h.sent position request hmem

theorem Asking.lookingUp {f : Field} {resource : String} {style : Url.CallStyle}
    {outcome : Except FieldError (Option Http.Request)} {events : Log}
    (hcall : x.Calls o parent ⟨s, f, resource, style⟩)
    (h : x.Asking path s.name (fieldUrl x.registry resource s f style) outcome events) :
    x.LookingUp o parent path s
      (outcome.map (Found.ofRequest f (fieldUrl x.registry resource s f style))) events := by
  refine ⟨fun event hevent => .inr ⟨_, rfl, hcall, h.requests event hevent⟩, ?_, ?_⟩
  · intro error herror
    cases outcome with
    | error e =>
      cases herror
      exact h.fatal _ rfl
    | ok request? => cases herror
  · intro position request hmem
    obtain ⟨rfl, rfl⟩ := h.sent position request hmem
    exact ⟨rfl, _, _, rfl⟩

theorem runs_request {f : Field} {resource : String} {style : Url.CallStyle}
    {request? : Option Http.Request} {parses asks : Log}
    (hparse : (x.preParseField s f path).Runs (.ok ()) parses)
    (hask : (x.ask path s.name (fieldUrl x.registry resource s f style)).Runs (.ok request?) asks) :
    (x.request resource s f style path).Runs
      (.ok (Found.ofRequest f (fieldUrl x.registry resource s f style) request?))
      (parses ++ asks) := by
  rw [request]
  exact hparse.bind (hask.map _)

/-- The host lets objects be resolved before a request is made for them, or there is none. -/
theorem cases_request {f : Field} {resource : String} {style : Url.CallStyle}
    {outcome : Except FieldError Found} {asked : Log}
    (h : (x.request resource s f style path).Runs outcome asked) :
    (∃ error, (x.preParseField s f path).Runs (.error error) asked ∧ outcome = .error error) ∨
      ∃ answer parses asks, (x.preParseField s f path).Runs (.ok ()) parses ∧
        (x.ask path s.name (fieldUrl x.registry resource s f style)).Runs answer asks ∧
        outcome = answer.map (Found.ofRequest f (fieldUrl x.registry resource s f style)) ∧
        asked = parses ++ asks := by
  have hasks := appends_ask x path s.name (fieldUrl x.registry resource s f style)
  rcases h.cases_bind (appends_preParseField x s f path)
      (fun _ => hasks.bind fun _ => Resolver.appends_pure _) with
    ⟨error, hfails, hends⟩ | ⟨_, parses, asks, hparse, hrest, rfl⟩
  · exact .inl ⟨error, hfails, hends⟩
  · obtain ⟨answer, hask, rfl⟩ := hrest.of_map hasks
    exact .inr ⟨answer, parses, asks, hparse, hask, rfl, rfl⟩

theorem lookingUp_of_request {f : Field} {resource : String} {style : Url.CallStyle}
    {outcome : Except FieldError Found} {events : Log}
    (hcall : x.Calls o parent ⟨s, f, resource, style⟩)
    (h : (x.request resource s f style path).Runs outcome events) :
    x.LookingUp o parent path s outcome events := by
  rcases cases_request h with ⟨error, hfails, rfl⟩ | ⟨answer, parses, asks, hparse, hask, rfl, rfl⟩
  · obtain ⟨hparse, hfatal⟩ := parse_of_preParseField hfails
    apply LookingUp.of_parses hparse
    intro error' herror
    cases herror
    exact hfatal error rfl
  · exact ((asking_of_ask hask).lookingUp hcall).append_parses (parse_of_preParseField hparse).1

/-- What the look-up of a field comes to, with what is logged for it. -/
inductive Located (x : Execution) (o : ObjectType) (parent : Parent) (path : Path) (s : Selection) :
    Except FieldError Found → Log → Prop
  | typename (hname : s.name = typenameField) :
      Located x o parent path s (.ok (.outline (.leaf (.string o.name)))) []
  | missing (error : FieldError) (fatal : error.isRecoverable = false) :
      Located x o parent path s (.ok (.outline (.failed error fatal))) []
  | nowhere : Located x o parent path s (.ok (.outline (.leaf .null))) []
  | inline {f : Field} {value : Json} (hname : s.name ≠ typenameField)
      (hf : o.fields.get? s.name = some f)
      (hsource : f.source x.service s.name parent = .inline value) :
      Located x o parent path s (.ok (.outline (.ofValue x.registry f.type value))) []
  | remote {f : Field} {resource : String} {style : Url.CallStyle}
      {outcome : Except FieldError Found} {asked : Log}
      (hcall : x.Calls o parent ⟨s, f, resource, style⟩)
      (hrequest : (x.request resource s f style path).Runs outcome asked) :
      Located x o parent path s outcome asked

theorem located_of_lookUp {outcome : Except FieldError Found} {asked : Log}
    (h : (x.lookUp o parent s path).Runs outcome asked) :
    x.Located o parent path s outcome asked := by
  rw [lookUp] at h
  split at h
  · rename_i hname
    obtain ⟨rfl, rfl⟩ := Resolver.runs_pure_iff.1 h
    exact .typename hname
  rename_i hname
  dsimp only at h
  split at h
  · rename_i f hf
    split at h
    · obtain ⟨rfl, rfl⟩ := Resolver.runs_pure_iff.1 h
      exact .nowhere
    · rename_i value hsource
      obtain ⟨rfl, rfl⟩ := Resolver.runs_pure_iff.1 h
      exact .inline hname hf hsource
    · obtain ⟨rfl, rfl⟩ := Resolver.runs_pure_iff.1 h
      exact .missing _ _
    · rename_i resource style hsource
      exact .remote ⟨hname, hf, hsource⟩ h
  · obtain ⟨rfl, rfl⟩ := Resolver.runs_pure_iff.1 h
    exact .missing _ _

theorem lookingUp_of_lookUp {outcome : Except FieldError Found} {events : Log}
    (h : (x.lookUp o parent s path).Runs outcome events) :
    x.LookingUp o parent path s outcome events := by
  cases located_of_lookUp h with
  | remote hcall hrequest => exact lookingUp_of_request hcall hrequest
  | _ => exact ⟨nofun, nofun, nofun⟩

/-- What the look-up of a field can end with. -/
inductive Finds (x : Execution) (o : ObjectType) (parent : Parent) (path : Path) (s : Selection) :
    Found → Prop
  | typename (hname : s.name = typenameField) :
      Finds x o parent path s (.outline (.leaf (.string o.name)))
  | null : Finds x o parent path s (.outline (.leaf .null))
  | missing (error : FieldError) (fatal : error.isRecoverable = false) :
      Finds x o parent path s (.outline (.failed error fatal))
  | inline {f : Field} {value : Json} (hname : s.name ≠ typenameField)
      (hf : o.fields.get? s.name = some f)
      (hsource : f.source x.service s.name parent = .inline value) :
      Finds x o parent path s (.outline (.ofValue x.registry f.type value))
  | asked {f : Field} {resource : String} {style : Url.CallStyle} {request : Http.Request}
      (hcall : x.Calls o parent ⟨s, f, resource, style⟩)
      (hask : (x.ask path s.name (fieldUrl x.registry resource s f style)).Gives
        (.ok (some request))) :
      Finds x o parent path s (.asked f (fieldUrl x.registry resource s f style) request)

theorem finds_of_lookUp {found : Found} (h : (x.lookUp o parent s path).Gives (.ok found)) :
    x.Finds o parent path s found := by
  obtain ⟨events, hruns⟩ := (appends_lookUp x o parent s path).runs_of_gives h
  cases located_of_lookUp hruns with
  | typename hname => exact .typename hname
  | missing error fatal => exact .missing error fatal
  | nowhere => exact .null
  | inline hname hf hsource => exact .inline hname hf hsource
  | remote hcall hrequest =>
    obtain ⟨_, _, hrest⟩ := Resolver.gives_bind_ok hrequest.gives
    obtain ⟨request?, hask, hfound⟩ := Resolver.gives_bind_ok hrest
    cases Resolver.gives_pure.1 hfound
    cases request? with
    | none => exact .null
    | some request => exact .asked hcall hask

theorem not_recoverable_of_resolveField {error : FieldError}
    (h : (x.resolveField o parent path s).Gives (.error error)) : error.isRecoverable = false := by
  rw [resolveField_eq] at h
  exact Resolver.not_recoverable_of_recover h

theorem not_recoverable_of_resolveEntity {e : Entity} {error : FieldError}
    (h : (x.resolveEntity fields e path).Gives (.error error)) : error.isRecoverable = false := by
  rw [resolveEntity] at h
  cases ho : x.registry.object? e.typeKey with
  | none =>
    rw [ho, Resolver.gives_throw] at h
    cases h
    rfl
  | some o =>
    rw [ho] at h
    obtain ⟨s, _, _, h⟩ := exists_of_resolveFields_error (gives_resolveFields_of_resolveObject h)
    exact not_recoverable_of_resolveField h

/-- What the run of a field can consist of. -/
inductive FieldRun (x : Execution) (o : ObjectType) (parent : Parent) (path : Path) (s : Selection) :
    Except FieldError Json → Log → Prop
  /-- It is not looked up to the end. -/
  | unfound {error : FieldError} {events : Log}
      (hfound : (x.lookUp o parent s path).Runs (.error error) events) :
      FieldRun x o parent path s (.error error) events
  /-- The service refuses what it is asked. -/
  | refused {found : Found} {error : FieldError} {events : Log}
      (hfound : (x.lookUp o parent s path).Runs (.ok found) events)
      (hread : x.read path found = .error error) (herror : error.isRecoverable = true) :
      FieldRun x o parent path s (.ok .null)
        (events ++ [.fail (error.toGraphQL x.exposure (some path))])
  /-- There is no answer, or one that cannot be read. -/
  | unread {found : Found} {error : FieldError} {events : Log}
      (hfound : (x.lookUp o parent s path).Runs (.ok found) events)
      (hread : x.read path found = .error error) (herror : error.isRecoverable = false) :
      FieldRun x o parent path s (.error error) events
  | resolved {found : Found} {outline : Outline} {outcome : Except FieldError Json}
      {first rest : Log} (hfound : (x.lookUp o parent s path).Runs (.ok found) first)
      (hread : x.read path found = .ok outline)
      (hrest : (outline.resolve (x.resolveEntity s.fields) path).Runs outcome rest) :
      FieldRun x o parent path s outcome (first ++ rest)

theorem fieldRun_of_resolveField {outcome : Except FieldError Json} {events : Log}
    (h : (x.resolveField o parent path s).Runs outcome events) :
    x.FieldRun o parent path s outcome events := by
  have houtline : ∀ outline : Outline,
      (outline.resolve (x.resolveEntity s.fields) path).Appends := fun outline =>
    outline.appends_resolve (appends_resolveEntity s.fields) path
  have hread : ∀ found, Resolver.Appends (lift (x.read path found) >>= fun outline =>
      outline.resolve (x.resolveEntity s.fields) path) := fun found =>
    (Resolver.appends_lift _).bind houtline
  rw [resolveField_eq, fieldValue_eq_steps] at h
  rcases h.cases_recover ((appends_lookUp x o parent s path).bind hread) with
    ⟨hruns, hfatal⟩ | ⟨error, before, hruns, herror, rfl, rfl⟩
  · rcases hruns.cases_bind (appends_lookUp x o parent s path) hread with
      ⟨error, hfound, rfl⟩ | ⟨found, first, rest, hfound, hrest, rfl⟩
    · exact .unfound hfound
    rcases hrest.cases_lift_bind with ⟨error, heq, rfl, rfl⟩ | ⟨outline, heq, hrest⟩
    · rw [List.append_nil]
      exact .unread hfound heq (hfatal error rfl)
    · exact .resolved hfound heq hrest
  · rcases hruns.cases_bind (appends_lookUp x o parent s path) hread with
      ⟨error', hfound, heq⟩ | ⟨found, first, rest, hfound, hrest, rfl⟩
    · cases heq
      rw [(lookingUp_of_lookUp hfound).fatal error rfl] at herror
      cases herror
    rcases hrest.cases_lift_bind with ⟨error', heq, hends, rfl⟩ | ⟨outline, heq, hrest⟩
    · cases hends
      rw [List.append_nil]
      exact .refused hfound heq herror
    · have hfatal := Outline.not_recoverable_of_resolve
        (fun _ _ _ => not_recoverable_of_resolveEntity) hrest.gives
      rw [hfatal] at herror
      cases herror

theorem runs_resolveField_refused {found : Found} {error : FieldError} {events : Log}
    (hfound : (x.lookUp o parent s path).Runs (.ok found) events)
    (hread : x.read path found = .error error) (herror : error.isRecoverable = true) :
    (x.resolveField o parent path s).Runs (.ok .null)
      (events ++ [.fail (error.toGraphQL x.exposure (some path))]) := by
  rw [resolveField_eq, fieldValue_eq_steps]
  apply Resolver.Runs.recover_of_recoverable _ herror
  have hread : ∀ f : Outline → Resolver Json,
      (lift (x.read path found) >>= f).Runs (.error error) [] := by
    intro f
    rw [hread]
    exact (Resolver.runs_lift _).bind_error
  rw [← List.append_nil events]
  exact hfound.bind (hread _)

/-- What is found for a field is resolved after it has been looked up. -/
theorem runs_resolveField_of_lookUp {found : Found} {outline : Outline}
    {outcome : Except FieldError Json} {asked events : Log}
    (hfound : (x.lookUp o parent s path).Runs (.ok found) asked)
    (hread : x.read path found = .ok outline)
    (hruns : (Resolver.recover x.exposure path
      (outline.resolve (x.resolveEntity s.fields) path)).Runs outcome events) :
    (x.resolveField o parent path s).Runs outcome (asked ++ events) := by
  rw [resolveField_eq, fieldValue_eq_steps]
  have hresolve : (lift (x.read path found) >>= fun outline =>
      outline.resolve (x.resolveEntity s.fields) path) =
        outline.resolve (x.resolveEntity s.fields) path := by
    rw [hread, Resolver.lift_ok, pure_bind]
  apply Resolver.Runs.recover_bind hfound
  · rw [hresolve]
    exact Outline.appends_resolve (appends_resolveEntity s.fields) outline path
  · rw [hresolve]
    exact hruns

theorem runs_resolveField_resolved {found : Found} {outline : Outline} {v : Json} {first rest : Log}
    (hfound : (x.lookUp o parent s path).Runs (.ok found) first)
    (hread : x.read path found = .ok outline)
    (hrest : (outline.resolve (x.resolveEntity s.fields) path).Runs (.ok v) rest) :
    (x.resolveField o parent path s).Runs (.ok v) (first ++ rest) :=
  runs_resolveField_of_lookUp hfound hread hrest.recover_ok

theorem appends_resolveObject (o : ObjectType) (parent : Parent) (fields : List Selection)
    (path : Path) : (x.resolveObject o parent fields path).Appends := by
  rw [resolveObject_eq]
  exact Resolver.appends_assemble (appends_fieldTasks x o parent fields)

/-- The host is asked about the root of a service before anything on it is resolved. -/
theorem cases_resolveQueryRoot {outcome : Except FieldError Json} {events : Log}
    (h : (x.resolveQueryRoot fields path).Runs outcome events) :
    ∃ parses, (∀ event ∈ parses, ∃ context, event = .parse context) ∧
      ((∃ error, error.isRecoverable = false ∧ outcome = .error error ∧ events = parses) ∨
        ∃ rest, (x.resolveObject x.registry.queryRoot .root fields path).Runs outcome rest ∧
          events = parses ++ rest) := by
  rcases h.cases_bind (appends_preParse x path _ _) fun _ => appends_resolveObject _ _ _ _ with
    ⟨error, hfails, rfl⟩ | ⟨_, parses, rest, hparses, hrest, rfl⟩
  · obtain ⟨hparse, hfatal⟩ := parse_of_preParse hfails
    exact ⟨events, hparse, .inl ⟨error, hfatal error rfl, rfl, rfl⟩⟩
  · exact ⟨parses, (parse_of_preParse hparses).1, .inr ⟨rest, hrest, rfl⟩⟩

/-- The objects in a value that the host has recover on their own. -/
theorem outline_of_resolveValue {type : TypeReference} {value : Json}
    {outcome : Except FieldError Json} {events : Log}
    (h : (x.resolveValue type value fields path).Runs outcome events) :
    ((Outline.ofValue x.registry type value).resolve (x.resolveEntity fields) path).Runs outcome
      events := by
  rw [resolveValue, Outline.completeValue_eq] at h
  rcases h.cases_recover (Outline.appends_resolve (appends_resolveEntity fields) _ path) with
    ⟨hruns, _⟩ | ⟨error, before, hruns, herror, _⟩
  · exact hruns
  · rw [Outline.not_recoverable_of_resolve (fun _ _ _ => not_recoverable_of_resolveEntity)
      hruns.gives] at herror
    cases herror

end Execution

end ODataGraph
