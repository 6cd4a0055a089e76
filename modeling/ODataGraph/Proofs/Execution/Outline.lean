import ODataGraph.Proofs.Execution.Handing
import ODataGraph.Proofs.Execution.Run

/-!
A field is resolved in three steps. It is looked up, which ends with its value or with a request
that is sent; what is answered to the request is read; and the objects that have come up so are
resolved one after the other, each at its own path. Only the second step asks the service, and only
the third one goes on to other fields.
-/

namespace ODataGraph

namespace Resolver

/-- What is to be resolved at a segment below some path. -/
abbrev Task := PathSegment × (Path → Resolver Json)

/-- Carries out tasks one after the other. -/
def inTurn (path : Path) : List Task → Resolver (List Json)
  | [] => return []
  | (segment, r) :: rest => do
    let v ← r (path ++ [segment])
    return v :: (← inTurn path rest)

/-- A value that is put together from those of tasks. -/
def assemble (build : List Json → Json) (tasks : List Task) (path : Path) : Resolver Json := do
  return build (← inTurn path tasks)

theorem lift_bind {α β : Type} (a : Except FieldError α) (f : α → Except FieldError β) :
    lift (a >>= f) = lift a >>= fun b => lift (f b) := by
  cases a <;> rfl

theorem lift_ok {α : Type} (a : α) : lift (.ok a) = pure a := rfl

theorem appends_inTurn {path : Path} {tasks : List Task}
    (h : ∀ t ∈ tasks, ∀ path, (t.2 path).Appends) : (inTurn path tasks).Appends := by
  induction tasks with
  | nil => exact appends_pure []
  | cons t rest ih =>
    apply (h t List.mem_cons_self _).bind
    intro v
    apply (ih fun t ht => h t (List.mem_cons_of_mem _ ht)).bind
    intro values
    exact appends_pure _

theorem appends_assemble {build : List Json → Json} {tasks : List Task} {path : Path}
    (h : ∀ t ∈ tasks, ∀ path, (t.2 path).Appends) : (assemble build tasks path).Appends := by
  apply (appends_inTurn h).bind
  intro values
  exact appends_pure _

theorem Runs.of_map {α β : Type} {r : Resolver α} {g : α → β} {outcome : Except FieldError β}
    {events : Log} (h : Runs (r >>= fun a => pure (g a)) outcome events) (hr : r.Appends) :
    ∃ outcome', r.Runs outcome' events ∧ outcome = outcome'.map g := by
  rcases h.cases_bind hr fun a => appends_pure (g a) with
    ⟨error, hfails, rfl⟩ | ⟨a, first, rest, hfirst, hrest, rfl⟩
  · exact ⟨.error error, hfails, rfl⟩
  · obtain ⟨rfl, rfl⟩ := runs_pure_iff.1 hrest
    exact ⟨.ok a, by rwa [List.append_nil], rfl⟩

theorem Runs.of_assemble {build : List Json → Json} {tasks : List Task} {path : Path}
    {outcome : Except FieldError Json} {events : Log}
    (h : (assemble build tasks path).Runs outcome events)
    (happends : ∀ t ∈ tasks, ∀ path, (t.2 path).Appends) :
    ∃ outcome', (inTurn path tasks).Runs outcome' events ∧ outcome = outcome'.map build :=
  h.of_map (appends_inTurn happends)

/-- The first task fails, or the others are carried out after it. -/
theorem Runs.cases_inTurn {t : Task} {rest : List Task} {path : Path}
    {outcome : Except FieldError (List Json)} {events : Log}
    (h : (inTurn path (t :: rest)).Runs outcome events)
    (happends : ∀ t' ∈ t :: rest, ∀ path, (t'.2 path).Appends) :
    (∃ error, (t.2 (path ++ [t.1])).Runs (.error error) events ∧ outcome = .error error) ∨
      ∃ v outcome' first more, (t.2 (path ++ [t.1])).Runs (.ok v) first ∧
        (inTurn path rest).Runs outcome' more ∧ outcome = outcome'.map (v :: ·) ∧
        events = first ++ more := by
  have hrest : (inTurn path rest).Appends :=
    appends_inTurn fun t' ht' => happends t' (List.mem_cons_of_mem _ ht')
  rcases h.cases_bind (happends t List.mem_cons_self _)
      (fun v => hrest.bind fun _ => appends_pure _) with
    ⟨error, hfails, rfl⟩ | ⟨v, first, more, hfirst, hmore, rfl⟩
  · exact .inl ⟨error, hfails, rfl⟩
  · obtain ⟨outcome', hruns, rfl⟩ := hmore.of_map hrest
    exact .inr ⟨v, outcome', first, more, hfirst, hruns, rfl, rfl⟩

theorem exists_of_inTurn_error {error : FieldError} {path : Path} {tasks : List Task}
    (h : (inTurn path tasks).Gives (.error error)) :
    ∃ t ∈ tasks, (t.2 (path ++ [t.1])).Gives (.error error) := by
  induction tasks with
  | nil =>
    rw [inTurn, gives_pure] at h
    cases h
  | cons t rest ih =>
    rcases gives_bind_error h with h | ⟨_, _, h⟩
    · exact ⟨t, List.mem_cons_self, h⟩
    rcases gives_bind_error h with h | ⟨_, _, h⟩
    · obtain ⟨t, ht, h⟩ := ih h
      exact ⟨t, List.mem_cons_of_mem _ ht, h⟩
    · rw [gives_pure] at h
      cases h

theorem exists_of_assemble_error {error : FieldError} {build : List Json → Json}
    {tasks : List Task} {path : Path} (h : (assemble build tasks path).Gives (.error error)) :
    ∃ t ∈ tasks, (t.2 (path ++ [t.1])).Gives (.error error) := by
  rcases gives_bind_error h with h | ⟨_, _, h⟩
  · exact exists_of_inTurn_error h
  · rw [gives_pure] at h
    cases h

theorem exists_of_inTurn_ok {path : Path} {tasks : List Task} {values : List Json}
    (h : (inTurn path tasks).Gives (.ok values)) :
    ∀ v ∈ values, ∃ t ∈ tasks, (t.2 (path ++ [t.1])).Gives (.ok v) := by
  induction tasks generalizing values with
  | nil =>
    rw [inTurn, gives_pure] at h
    cases h
    exact nofun
  | cons t rest ih =>
    obtain ⟨first, hfirst, h⟩ := gives_bind_ok h
    obtain ⟨others, hothers, h⟩ := gives_bind_ok h
    rw [gives_pure] at h
    cases h
    intro v hv
    rcases List.mem_cons.1 hv with rfl | hv
    · exact ⟨t, List.mem_cons_self, hfirst⟩
    · obtain ⟨t', ht', h⟩ := ih hothers v hv
      exact ⟨t', List.mem_cons_of_mem _ ht', h⟩

theorem exists_of_assemble_ok {build : List Json → Json} {tasks : List Task} {path : Path}
    {v : Json} (h : (assemble build tasks path).Gives (.ok v)) :
    ∃ values, v = build values ∧
      ∀ v ∈ values, ∃ t ∈ tasks, (t.2 (path ++ [t.1])).Gives (.ok v) := by
  obtain ⟨values, hvalues, h⟩ := gives_bind_ok h
  rw [gives_pure] at h
  cases h
  exact ⟨values, rfl, exists_of_inTurn_ok hvalues⟩

end Resolver

theorem FieldError.not_recoverable_unresolvableField (typeName fieldName : String) :
    (unresolvableField typeName fieldName).isRecoverable = false := rfl

theorem Entity.not_recoverable_of_materialize {r : Registry} {declared : String}
    {data : Json.Members} {origin : Option String} {error : FieldError}
    (h : materialize r declared data origin = .error error) : error.isRecoverable = false := by
  rw [materialize] at h
  cases hkey : typeOf r declared data with
  | error e =>
    rw [hkey] at h
    cases h
    rw [typeOf] at hkey
    split at hkey
    · cases hkey
    · dsimp only at hkey
      split at hkey
      · cases hkey
        rfl
      · cases hkey
      · cases hkey
  | ok key =>
    rw [hkey] at h
    dsimp only [bind, Except.bind] at h
    split at h
    · cases h
    · cases h
      rfl

/-- A value with the objects in it still to be resolved. -/
inductive Outline where
  | leaf (v : Json)
  | failed (error : FieldError) (fatal : error.isRecoverable = false)
  | entity (e : Entity)
  | list (items : List Outline)

namespace Outline

open Resolver (Task)

section

variable (onEntity : Entity → Path → Resolver Json)

mutual

def resolve : Outline → Path → Resolver Json
  | .leaf v, _ => return v
  | .failed error _, _ => throw error
  | .entity e, path => onEntity e path
  | .list items, path => Resolver.assemble .array (itemTasks 0 items) path

def itemTasks : Nat → List Outline → List Task
  | _, [] => []
  | i, item :: rest => (.index i, resolve item) :: itemTasks (i + 1) rest

end

end

/-- An object where a type is declared. -/
def ofObject (r : Registry) (key : String) (data : Json.Members) : Outline :=
  match h : Entity.materialize r key data none with
  | .ok e => .entity e
  | .error error => .failed error (Entity.not_recoverable_of_materialize h)

/-- The outline of a value that is there already. -/
def ofValue (r : Registry) : TypeReference → Json → Outline
  | _, .null => .leaf .null
  | .nonNull type, value => ofValue r type value
  | .list type, .array items => .list (items.map (ofValue r type))
  | .list _, _ => .leaf .null
  | .named key, value =>
    if r.isComposite key then
      match value with
      | .object data => ofObject r key data
      | _ => .leaf .null
    else .leaf value
  | .scalar s, value => .leaf (s.coerce value)

/-- The outline of what came back from a service. -/
def ofDecoded : Decoded → Outline
  | .entities entities => .list (entities.map .entity)
  | .entity e => .entity e
  | .text text => .leaf (.string text)
  | .nothing => .leaf .null

variable {onEntity : Entity → Path → Resolver Json} {path : Path}

theorem resolve_leaf (v : Json) (path : Path) : (leaf v).resolve onEntity path = pure v := rfl

theorem resolve_failed (error : FieldError) (fatal : error.isRecoverable = false) (path : Path) :
    (failed error fatal).resolve onEntity path = throw error := rfl

theorem resolve_entity (e : Entity) (path : Path) :
    (entity e).resolve onEntity path = onEntity e path := rfl

/-- What there is to do for an item of a list. -/
def itemTask (onEntity : Entity → Path → Resolver Json) (item : Outline × Nat) : Task :=
  (.index item.2, item.1.resolve onEntity)

theorem itemTasks_eq (start : Nat) (items : List Outline) :
    itemTasks onEntity start items = (items.zipIdx start).map (itemTask onEntity) := by
  induction items generalizing start with
  | nil => rfl
  | cons item rest ih =>
    change itemTask onEntity (item, start) :: itemTasks onEntity (start + 1) rest = _
    rw [ih, List.zipIdx_cons, List.map_cons]

theorem resolve_list (items : List Outline) (path : Path) :
    (list items).resolve onEntity path =
      Resolver.assemble .array (items.zipIdx.map (itemTask onEntity)) path := by
  rw [← itemTasks_eq]
  rfl

/-- What holds of an outline when it holds of the items in it holds of every outline. -/
theorem induction_items {motive : Outline → Prop} (leaf : ∀ v, motive (.leaf v))
    (failed : ∀ error fatal, motive (.failed error fatal)) (entity : ∀ e, motive (.entity e))
    (list : ∀ items, (∀ item ∈ items, motive item) → motive (.list items)) (outline : Outline) :
    motive outline :=
  match outline with
  | .leaf v => leaf v
  | .failed error fatal => failed error fatal
  | .entity e => entity e
  | .list items => list items fun item hitem =>
    have : sizeOf item < sizeOf (Outline.list items) := by
      have hlt := List.sizeOf_lt_of_mem hitem
      simp only [Outline.list.sizeOf_spec]
      omega
    induction_items leaf failed entity list item
termination_by outline

theorem zipIdx_mapM_eq {α : Type} {g : α → Path → Resolver Json} {outline : α → Outline}
    {items : List α} (h : ∀ a ∈ items, ∀ path, g a path = (outline a).resolve onEntity path)
    (start : Nat) :
    ((items.zipIdx start).mapM fun (a, i) => g a (path ++ [.index i])) =
      Resolver.inTurn path (itemTasks onEntity start (items.map outline)) := by
  induction items generalizing start with
  | nil => rfl
  | cons a rest ih =>
    have hrest := ih (fun b hb => h b (List.mem_cons_of_mem _ hb)) (start + 1)
    rw [List.zipIdx_cons, List.mapM_cons, hrest, List.map_cons, itemTasks, Resolver.inTurn]
    rw [← h a List.mem_cons_self]

theorem resolve_ofObject (r : Registry) (key : String) (data : Json.Members) (path : Path) :
    (ofObject r key data).resolve onEntity path =
      Resolver.lift (Entity.materialize r key data none) >>= fun e => onEntity e path := by
  rw [ofObject]
  split
  · rename_i e h
    rw [resolve, h]
    rfl
  · rename_i error h
    rw [resolve_failed, h]
    rfl

theorem completeValue_eq (r : Registry) (type : TypeReference) (value : Json) (path : Path) :
    completeValue r onEntity type value path = (ofValue r type value).resolve onEntity path := by
  induction type generalizing value path with
  | scalar s => cases value <;> simp only [completeValue, ofValue, resolve]
  | named key =>
    cases value with
    | null => simp only [completeValue, ofValue, resolve]
    | object data =>
      rw [completeValue, ofValue]
      split
      · rw [resolve_ofObject]
      · rw [resolve]
    | _ =>
      simp only [completeValue, ofValue]
      split <;> rw [resolve]
  | list element ih =>
    cases value with
    | array items =>
      rw [completeValue, ofValue, resolve, Resolver.assemble]
      rw [zipIdx_mapM_eq fun item _ => ih item]
    | _ => simp only [completeValue, ofValue, resolve]
  | nonNull type ih =>
    cases value with
    | null => simp only [completeValue, ofValue, resolve]
    | _ => simp only [completeValue, ofValue, ih]

theorem completeDecoded_eq (decoded : Decoded) (path : Path) :
    Execution.completeDecoded onEntity path decoded =
      (ofDecoded decoded).resolve onEntity path := by
  cases decoded with
  | entities entities =>
    have hitem : ∀ e ∈ entities, ∀ path, onEntity e path = (entity e).resolve onEntity path := by
      intro e _ path
      rw [resolve]
    rw [Execution.completeDecoded, ofDecoded, resolve, Resolver.assemble, zipIdx_mapM_eq hitem]
  | _ => rw [Execution.completeDecoded, ofDecoded, resolve]

end Outline

/-- What a field is found to be: something that is there already, or a request to a URL. -/
inductive Found where
  | outline (outline : Outline)
  | asked (f : Field) (url : String) (request : Http.Request)

/-- A field whose request was dropped is null. -/
def Found.ofRequest (f : Field) (url : String) : Option Http.Request → Found
  | some request => .asked f url request
  | none => .outline (.leaf .null)

namespace Execution

open Resolver (Task log lift)

variable {x : Execution} {o : ObjectType} {parent : Parent} {path : Path} {s : Selection}
variable {fields : List Selection} {onEntity : Entity → Path → Resolver Json}

/-- Sends a request, if that can be done. -/
def dispatch (x : Execution) (path : Path) (request : Http.Request) :
    Resolver (Option Http.Request) :=
  if !Url.isValid request.url then throw (.invalidUrl request.url)
  else if x.cancelled then throw .cancelled
  else do
    log (.send path request)
    return some request

/-- Sends the request for a field, unless the hook drops it. -/
def ask (x : Execution) (path : Path) (fieldName url : String) : Resolver (Option Http.Request) := do
  let some request ← x.preRequest path fieldName { url, headers := x.headers } | return none
  x.dispatch path request

def answer (x : Execution) (path : Path) (request : Http.Request) : Except FieldError Payload := do
  Payload.ofResponse request.url (← (x.client path request).mapError .transport)

/-- Asks for a field under a resource. -/
def request (x : Execution) (resource : String) (s : Selection) (f : Field) (call : Url.CallStyle)
    (path : Path) : Resolver Found := do
  x.preParseField s f path
  let url := fieldUrl x.registry resource s f call
  return Found.ofRequest f url (← x.ask path s.name url)

/-- The first step: a field is looked up. -/
def lookUp (x : Execution) (o : ObjectType) (parent : Parent) (s : Selection) (path : Path) :
    Resolver Found := do
  if s.name = typenameField then return .outline (.leaf (.string o.name))
  let missing : Outline := .failed _ (FieldError.not_recoverable_unresolvableField o.name s.name)
  let some f := o.fields.get? s.name | return .outline missing
  match f.source x.service s.name parent with
  | .nowhere => return .outline (.leaf .null)
  | .inline value => return .outline (.ofValue x.registry f.type value)
  | .unresolvable => return .outline missing
  | .remote resource call => x.request resource s f call path

/-- The second step: the answer to a request is read. -/
def read (x : Execution) (path : Path) : Found → Except FieldError Outline
  | .outline outline => .ok outline
  | .asked f url request => do
    let payload ← x.answer path request
    return .ofDecoded (← Decoded.ofPayload x.registry f.type payload url false)

theorem read_of_answer {f : Field} {url : String} {request : Http.Request} {payload : Payload}
    {decoded : Decoded} (hanswer : x.answer path request = .ok payload)
    (hdecoded : Decoded.ofPayload x.registry f.type payload url false = .ok decoded) :
    x.read path (.asked f url request) = .ok (.ofDecoded decoded) := by
  rw [read, hanswer]
  exact congrArg (Except.map Outline.ofDecoded) hdecoded

theorem get_eq (x : Execution) (path : Path) (fieldName url : String) :
    x.get path fieldName url = x.ask path fieldName url >>= fun
      | some request => lift (x.answer path request) >>= fun payload => return some payload
      | none => return none := by
  rw [get, ask, bind_assoc]
  congr 1
  funext request?
  cases request? with
  | none => rfl
  | some request =>
    dsimp only [dispatch]
    split
    · rfl
    split
    · rfl
    · simp only [bind_assoc, pure_bind, answer, Resolver.lift_bind]

theorem fieldValue_eq_steps : x.fieldValue o parent s path onEntity =
    x.lookUp o parent s path >>= fun found =>
      lift (x.read path found) >>= fun outline => outline.resolve onEntity path := by
  rw [lookUp]
  by_cases hname : s.name = typenameField
  · rw [fieldValue, if_pos hname, if_pos hname, pure_bind, read, Resolver.lift_ok, pure_bind]
    rw [Outline.resolve]
  rw [if_neg hname]
  cases hf : o.fields.get? s.name with
  | none =>
    rw [fieldValue, if_neg hname, hf]
    dsimp only
    rw [pure_bind, read, Resolver.lift_ok, pure_bind, Outline.resolve_failed]
  | some f =>
    rw [fieldValue_eq hname hf]
    dsimp only
    cases f.source x.service s.name parent with
    | nowhere =>
      dsimp only
      rw [pure_bind, read, Resolver.lift_ok, pure_bind, Outline.resolve_leaf]
    | inline value =>
      dsimp only
      rw [pure_bind, read, Resolver.lift_ok, pure_bind, Outline.completeValue_eq]
    | unresolvable =>
      dsimp only
      rw [pure_bind, read, Resolver.lift_ok, pure_bind, Outline.resolve_failed]
    | remote resource call =>
      dsimp only [fetch, request]
      simp only [get_eq, bind_assoc]
      congr 1
      funext _
      congr 1
      funext request?
      cases request? with
      | none =>
        simp only [pure_bind, Found.ofRequest, read, Resolver.lift_ok, Outline.resolve]
      | some request =>
        simp only [pure_bind, bind_assoc, Found.ofRequest, read, Resolver.lift_bind,
          Outline.completeDecoded_eq]
        rfl

/-- What is selected on an object, as tasks. -/
def fieldTasks (x : Execution) (o : ObjectType) (parent : Parent) (fields : List Selection) :
    List Task :=
  (fields.filter parent.selects).map fun s =>
    (.field s.responseKey, fun path => x.resolveField o parent path s)

/-- The response keys of what is selected on an object. -/
def keysOn (parent : Parent) (fields : List Selection) : List String :=
  (fields.filter parent.selects).map (·.responseKey)

/-- An object with values by their keys. -/
def objectOf (keys : List String) (values : List Json) : Json :=
  .object (Json.Members.ofList (keys.zip values))

theorem resolveFields_eq (fields : List Selection) :
    x.resolveFields o parent path fields = do
      return (keysOn parent fields).zip
        (← Resolver.inTurn path (x.fieldTasks o parent fields)) := by
  induction fields with
  | nil => rfl
  | cons s rest ih =>
    rw [resolveFields]
    by_cases hs : parent.selects s = true
    · rw [if_pos hs, ih]
      simp only [fieldTasks, keysOn, List.filter_cons_of_pos hs, List.map_cons, Resolver.inTurn,
        bind_assoc, pure_bind, List.zip_cons_cons]
    · rw [if_neg hs, ih]
      simp only [fieldTasks, keysOn, List.filter_cons_of_neg hs]

theorem resolveObject_eq (fields : List Selection) :
    x.resolveObject o parent fields path =
      Resolver.assemble (objectOf (keysOn parent fields)) (x.fieldTasks o parent fields) path := by
  rw [resolveObject, resolveFields_eq, Resolver.assemble]
  simp only [bind_assoc, pure_bind]
  rfl

/-- The fields of an entity are tasks of its own object, if that is registered. -/
theorem cases_resolveEntity (x : Execution) (fields : List Selection) (e : Entity) :
    x.resolveEntity fields e = (fun _ => throw (.missingObject e.typeName)) ∨
      ∃ o, x.registry.object? e.typeKey = some o ∧ x.resolveEntity fields e =
        Resolver.assemble (objectOf (keysOn (.entity e) fields))
          (x.fieldTasks o (.entity e) fields) := by
  cases ho : x.registry.object? e.typeKey with
  | none =>
    left
    funext path
    rw [resolveEntity, ho]
  | some o =>
    right
    refine ⟨o, rfl, ?_⟩
    funext path
    rw [resolveEntity, ho]
    exact resolveObject_eq fields

end Execution

end ODataGraph
