import ODataGraph.Proofs.Execution.ErrorPath

/-!
What a refused request costs. When the answer to one request of a run is replaced by a refusal, the
field that made it becomes null, its error takes the place of all errors at and below it, and
nothing else changes.
-/

namespace ODataGraph

/-- A record has a value in a field: as an object, or as an array with the one field alone. -/
def Json.IsField (name : String) (v w : Json) : Prop :=
  (∃ members, v = .object members ∧ members.lookup name = some w) ∨ v = .array [w]

namespace Payload

/-- A body that reads as an error envelope with the code for a denied request. -/
def IsDenial (body : List UInt8) : Prop :=
  ∃ text envelope error, Text.Utf8.decode? body = some text ∧ Json.parse? text = some envelope ∧
    Json.IsField "error" envelope error ∧ Json.IsField "code" error (.string requestDenied)

theorem isField_iff {name : String} {v w : Json} :
    Json.IsField name v w ↔
      ∃ fields, v.record? [name] = some fields ∧ fields.lookup name = some w := by
  rw [Json.IsField]
  cases v with
  | object members => simp [Json.record?]
  | array items =>
    match items with
    | [] => simp [Json.record?]
    | [item] => simp [Json.record?]
    | _ :: _ :: _ => simp [Json.record?]
  | _ => simp [Json.record?]

theorem optionalString?_eq_iff {v : Option Json} {text : String} :
    Json.optionalString? v = some (some text) ↔ v = some (.string text) := by
  cases v with
  | none => simp [Json.optionalString?]
  | some v => cases v <;> simp [Json.optionalString?]

theorem errorCode_eq_iff {details : Json} {code : String} :
    errorCode details = some code ↔ ∃ error, Json.IsField "error" details error ∧
      Json.IsField "code" error (.string code) := by
  simp only [errorCode, isField_iff, Option.bind_eq_bind, Option.bind_eq_some_iff]
  constructor
  · rintro ⟨fields, hfields, error, herror, fields', hfields', found, hfound, rfl⟩
    exact ⟨error, ⟨fields, hfields, herror⟩, fields', hfields', optionalString?_eq_iff.1 hfound⟩
  · rintro ⟨error, ⟨fields, hfields, herror⟩, fields', hfields', hfound⟩
    exact ⟨fields, hfields, error, herror, fields', hfields', some code,
      optionalString?_eq_iff.2 hfound, rfl⟩

theorem errorCode_errorDetails_iff {body : List UInt8} :
    errorCode (errorDetails body) = some requestDenied ↔ IsDenial body := by
  rw [errorCode_eq_iff, IsDenial, errorDetails]
  cases hvalue : (Text.Utf8.decode? body).bind Json.parse? with
  | none =>
    have hnot : ∀ text envelope, Text.Utf8.decode? body = some text →
        Json.parse? text ≠ some envelope := by
      intro text envelope htext henvelope
      rw [htext, Option.bind_some, henvelope] at hvalue
      cases hvalue
    constructor
    · rintro ⟨error, ⟨members, heq, _⟩ | heq, _⟩
      · cases heq
      · cases heq
    · rintro ⟨text, envelope, error, htext, henvelope, _⟩
      exact absurd henvelope (hnot text envelope htext)
  | some details =>
    obtain ⟨text, htext, hdetails⟩ := Option.bind_eq_some_iff.1 hvalue
    rw [Option.getD_some]
    constructor
    · rintro ⟨error, herror, hcode⟩
      exact ⟨text, details, error, htext, hdetails, herror, hcode⟩
    · rintro ⟨text', envelope, error, htext', henvelope, herror, hcode⟩
      cases htext.symm.trans htext'
      cases hdetails.symm.trans henvelope
      exact ⟨error, herror, hcode⟩

end Payload

/-- The error of a response that refuses a request. -/
def FieldError.ofRefusal (url : String) (response : Http.Response) : FieldError :=
  let details := Payload.errorDetails response.body
  if Payload.errorCode details = some Payload.requestDenied then .unauthorized url details
  else .remote url response.status details

theorem FieldError.ofRefusal_cases (url : String) (response : Http.Response) :
    ∃ details, (Payload.IsDenial response.body ∧
        ofRefusal url response = .unauthorized url details) ∨
      (¬ Payload.IsDenial response.body ∧
        ofRefusal url response = .remote url response.status details) := by
  rw [← Payload.errorCode_errorDetails_iff]
  refine ⟨Payload.errorDetails response.body, ?_⟩
  rw [ofRefusal]
  split
  · rename_i hdenied
    exact .inl ⟨hdenied, rfl⟩
  · rename_i hdenied
    exact .inr ⟨hdenied, rfl⟩

/-- Whether an error is listed at a path or below it. -/
def GraphQLError.isUnder (p : Path) (error : GraphQLError) : Bool := error.path.any p.isPrefixOf

/-- The errors of a log and those of another one that has one error in place of all those at and
below a path. -/
def Log.Trades (p : Path) (error : GraphQLError) (log log' : Log) : Prop :=
  ∃ before after, log'.errors = before ++ error :: after ∧
    before ++ after = log.errors.filter fun e => !e.isUnder p

namespace Log

variable {p path : Path} {error : GraphQLError} {first first' more more' : Log}

theorem filter_errors_eq_self (h : ∀ e ∈ first.errors, e.isUnder p = false) :
    first.errors.filter (fun e => !e.isUnder p) = first.errors := by
  rw [List.filter_eq_self]
  intro e he
  rw [h e he]
  rfl

theorem Trades.append_right (h : Trades p error first first')
    (hmore : ∀ e ∈ more.errors, e.isUnder p = false) :
    Trades p error (first ++ more) (first' ++ more) := by
  obtain ⟨before, after, herrors, hkept⟩ := h
  refine ⟨before, after ++ more.errors, ?_, ?_⟩
  · rw [errors_append, herrors, List.append_assoc, List.cons_append]
  · rw [errors_append, List.filter_append, ← hkept, filter_errors_eq_self hmore, List.append_assoc]

theorem Trades.append_left (h : Trades p error more more')
    (hfirst : ∀ e ∈ first.errors, e.isUnder p = false) :
    Trades p error (first ++ more) (first ++ more') := by
  obtain ⟨before, after, herrors, hkept⟩ := h
  refine ⟨first.errors ++ before, after, ?_, ?_⟩
  · rw [errors_append, herrors, List.append_assoc]
  · rw [errors_append, List.filter_append, ← hkept, filter_errors_eq_self hfirst, List.append_assoc]

/-- Errors beside a path are not under it. -/
theorem not_isUnder_of_beside {segment : PathSegment} (hp : path ++ [segment] <+: p)
    (hbeside : ∀ event ∈ first, ∃ other, other ≠ segment ∧ event.IsWithin (path ++ [other])) :
    ∀ e ∈ first.errors, e.isUnder p = false := by
  intro e he
  obtain ⟨other, hne, position, hposition, hprefix⟩ := hbeside _ (mem_errors.1 he)
  rw [GraphQLError.isUnder, hposition, Option.any_some, Bool.eq_false_iff]
  intro hunder
  exact hne (eq_of_prefixes hprefix (hp.trans (List.isPrefixOf_iff_prefix.1 hunder)))

/-- Errors within a path are all under it. -/
theorem filter_errors_eq_nil (hwithin : ∀ event ∈ first, event.IsWithin p) :
    first.errors.filter (fun e => !e.isUnder p) = [] := by
  rw [List.filter_eq_nil_iff]
  intro e he
  obtain ⟨position, hposition, hprefix⟩ := hwithin _ (mem_errors.1 he)
  rw [GraphQLError.isUnder, hposition, Option.any_some, List.isPrefixOf_iff_prefix.2 hprefix]
  exact Bool.false_ne_true

end Log

/-- The place of a request in a run, and what the service answers to it in another one. -/
structure Refusal where
  path : Path
  request : Http.Request
  response : Http.Response
  refuses : response.status.isSuccess = false

namespace Refusal

def error (refusal : Refusal) : FieldError :=
  .ofRefusal refusal.request.url refusal.response

/-- What comes of a run when a request that it has sent is refused. -/
def Costs (refusal : Refusal) (exposure : Exposure) (path : Path) (r' : Resolver Json) (v : Json)
    (events : Log) (rest : Path) : Prop :=
  refusal.path = path ++ rest ∧ ∃ events', r'.Runs (.ok (v.replaceAt rest .null)) events' ∧
    Log.Trades refusal.path (refusal.error.toGraphQL exposure (some refusal.path)) events events'

end Refusal

/-- Two resolvers for a path that differ in what one request comes to. -/
structure Twin (refusal : Refusal) (exposure : Exposure) (r r' : Path → Resolver Json) : Prop where
  same : ∀ path, ¬ path <+: refusal.path → r path = r' path
  sound : ∀ path outcome events, (r path).Runs outcome events → Sound path outcome events
  refused : ∀ path v events, (r path).Runs (.ok v) events →
    .send refusal.path refusal.request ∈ events →
    ∃ rest, refusal.Costs exposure path (r' path) v events rest

/-- The same where everything that happens is below the path. -/
structure TwinBelow (refusal : Refusal) (exposure : Exposure) (r r' : Path → Resolver Json) : Prop
    extends Twin refusal exposure r r' where
  below : ∀ path outcome events, (r path).Runs outcome events →
    ∀ event ∈ events, ∃ segment, event.IsWithin (path ++ [segment])

/-- Tasks with the same segments that are twins one by one. -/
def TwinTasks (refusal : Refusal) (exposure : Exposure) (tasks tasks' : List Resolver.Task) : Prop :=
  List.Forall₂ (fun t t' => t.1 = t'.1 ∧ Twin refusal exposure t.2 t'.2) tasks tasks'

theorem TwinTasks.sound {refusal : Refusal} {exposure : Exposure} {tasks tasks' : List Resolver.Task}
    (h : TwinTasks refusal exposure tasks tasks') : ∀ t ∈ tasks, ∀ path outcome events,
      (t.2 path).Runs outcome events → Sound path outcome events := by
  induction h with
  | nil => exact nofun
  | cons ht _ ih =>
    intro t hmem
    rcases List.mem_cons.1 hmem with rfl | hmem
    · exact ht.2.sound
    · exact ih t hmem

namespace Resolver

variable {refusal : Refusal} {exposure : Exposure} {path : Path} {tasks tasks' : List Task}

theorem Runs.inTurn_cons {t : Task} {rest : List Task} {v : Json} {values : List Json}
    {first more : Log} (hfirst : (t.2 (path ++ [t.1])).Runs (.ok v) first)
    (hmore : (inTurn path rest).Runs (.ok values) more) :
    (inTurn path (t :: rest)).Runs (.ok (v :: values)) (first ++ more) := by
  have hlast : (inTurn path rest >>= fun values => pure (v :: values)).Runs (.ok (v :: values))
      (more ++ []) := hmore.bind (runs_pure (v :: values))
  rw [List.append_nil] at hlast
  exact hfirst.bind hlast

theorem inTurn_same (h : TwinTasks refusal exposure tasks tasks')
    (hpath : ∀ t ∈ tasks, ¬ path ++ [t.1] <+: refusal.path) :
    inTurn path tasks = inTurn path tasks' := by
  induction h with
  | nil => rfl
  | @cons t t' rest rest' ht hrest ih =>
    have hhead := ht.2.same _ (hpath t List.mem_cons_self)
    rw [ht.1] at hhead
    rw [inTurn, inTurn, ht.1, hhead, ih fun t ht => hpath t (List.mem_cons_of_mem _ ht)]

/-- Only the task that the request belongs to comes to something else. -/
theorem inTurn_refused (h : TwinTasks refusal exposure tasks tasks')
    (happends : ∀ t ∈ tasks, ∀ path, (t.2 path).Appends) (hnodup : (tasks.map Prod.fst).Nodup)
    {values : List Json} {events : Log} (hruns : (inTurn path tasks).Runs (.ok values) events)
    (hsent : .send refusal.path refusal.request ∈ events) :
    ∃ i segment v rest, (tasks.map Prod.fst)[i]? = some segment ∧ values[i]? = some v ∧
      refusal.path = path ++ segment :: rest ∧
      ∃ events', (inTurn path tasks').Runs (.ok (values.set i (v.replaceAt rest .null))) events' ∧
        Log.Trades refusal.path (refusal.error.toGraphQL exposure (some refusal.path)) events
          events' := by
  induction h generalizing values events with
  | nil =>
    obtain ⟨_, rfl⟩ := runs_pure_iff.1 hruns
    cases hsent
  | @cons t t' tasks tasks' ht htasks ih =>
    obtain ⟨hnot, hrest⟩ := List.nodup_cons.1 hnodup
    have happends' : ∀ t ∈ tasks, ∀ path, (t.2 path).Appends :=
      fun t ht => happends t (List.mem_cons_of_mem _ ht)
    rcases hruns.cases_inTurn happends with
      ⟨_, _, heq⟩ | ⟨v, outcome', first, more, hfirst, hmore, heq, rfl⟩
    · cases heq
    cases outcome' with
    | error _ => cases heq
    | ok values' =>
      cases heq
      have hwithin := (soundInTurn happends' (TwinTasks.sound htasks) hrest hmore).within
      rcases List.mem_append.1 hsent with hsent | hsent
      · obtain ⟨rest, hpath, first', hfirst', htrades⟩ := ht.2.refused _ v first hfirst hsent
        have hprefix : path ++ [t.1] <+: refusal.path := ⟨rest, hpath.symm⟩
        have hne : ∀ segment ∈ tasks.map Prod.fst, segment ≠ t.1 := by
          rintro segment hsegment rfl
          exact hnot hsegment
        have hsame : inTurn path tasks = inTurn path tasks' := by
          apply inTurn_same htasks
          intro t₂ ht₂ hprefix₂
          exact hne t₂.1 (List.mem_map_of_mem ht₂) (eq_of_prefixes hprefix₂ hprefix)
        refine ⟨0, t.1, v, rest, rfl, rfl, ?_, first' ++ more, ?_, ?_⟩
        · rw [hpath, List.append_assoc, List.singleton_append]
        · rw [ht.1] at hfirst'
          rw [hsame] at hmore
          exact hfirst'.inTurn_cons hmore
        · apply htrades.append_right
          apply Log.not_isUnder_of_beside hprefix
          intro event hevent
          obtain ⟨segment, hsegment, hevent⟩ := hwithin event hevent
          exact ⟨segment, hne segment hsegment, hevent⟩
      · obtain ⟨i, segment, v', rest, hsegment, hv', hpath, more', hmore', htrades⟩ :=
          ih happends' hrest hmore hsent
        have hprefix : path ++ [segment] <+: refusal.path :=
          ⟨rest, by rw [hpath, List.append_assoc, List.singleton_append]⟩
        have hne : t.1 ≠ segment := by
          rintro rfl
          exact hnot (List.mem_of_getElem? hsegment)
        have hsame : t.2 (path ++ [t.1]) = t'.2 (path ++ [t'.1]) := by
          rw [← ht.1]
          exact ht.2.same _ fun hprefix' => hne (eq_of_prefixes hprefix' hprefix)
        have hbeside := (ht.2.sound _ _ _ hfirst).within
        refine ⟨i + 1, segment, v', rest, hsegment, hv', hpath, first ++ more', ?_, ?_⟩
        · rw [hsame] at hfirst
          exact hfirst.inTurn_cons hmore'
        · apply htrades.append_left
          apply Log.not_isUnder_of_beside hprefix
          intro event hevent
          exact ⟨t.1, hne, hbeside event hevent⟩

/-- Values put together from those of twins are twins again, with nothing at their own path. -/
theorem twinBelow_assemble {build : List Json → Json} (h : TwinTasks refusal exposure tasks tasks')
    (happends : ∀ t ∈ tasks, ∀ path, (t.2 path).Appends)
    (hframe : Json.Frame build (tasks.map Prod.fst)) :
    TwinBelow refusal exposure (assemble build tasks) (assemble build tasks') := by
  have hsound : ∀ path outcome events, (assemble build tasks path).Runs outcome events →
      SoundBelow path outcome events := fun path outcome events =>
    soundBelow_of_assemble hframe happends (TwinTasks.sound h)
  refine ⟨⟨?_, fun path outcome events hruns => (hsound path outcome events hruns).toSound, ?_⟩,
    fun path outcome events hruns => (hsound path outcome events hruns).below⟩
  · intro path hpath
    rw [assemble, assemble, inTurn_same h]
    intro t _ hprefix
    exact hpath ((List.prefix_append path [t.1]).trans hprefix)
  · intro path v events hruns hsent
    obtain ⟨outcome', hinTurn, heq⟩ := hruns.of_assemble happends
    cases outcome' with
    | error _ => cases heq
    | ok values =>
      cases heq
      have hlength := (soundInTurn happends (TwinTasks.sound h) hframe.nodup hinTurn).length values rfl
      obtain ⟨i, segment, v, rest, hsegment, hv, hpath, events', hruns', htrades⟩ :=
        inTurn_refused h happends hframe.nodup hinTurn hsent
      refine ⟨segment :: rest, hpath, events', ?_, htrades⟩
      rw [hframe.replaceAt_cons hlength hsegment hv]
      have hbuild := hruns'.bind (f := fun values => pure (build values)) (runs_pure _)
      rwa [List.append_nil] at hbuild

end Resolver

theorem twinBelow_of_quiet {refusal : Refusal} {exposure : Exposure} {r : Path → Resolver Json}
    (h : ∀ path outcome events, (r path).Runs outcome events → events = []) :
    TwinBelow refusal exposure r r := by
  refine ⟨⟨fun _ _ => rfl, ?_, ?_⟩, ?_⟩
  · intro path outcome events hruns
    rw [h path outcome events hruns]
    exact (soundBelow_of_nil path outcome).toSound
  · intro path v events hruns hsent
    rw [h path _ events hruns] at hsent
    cases hsent
  · intro path outcome events hruns event hevent
    rw [h path outcome events hruns] at hevent
    cases hevent

theorem Outline.twinBelow_resolve {refusal : Refusal} {exposure : Exposure}
    {onEntity onEntity' : Entity → Path → Resolver Json}
    (happends : ∀ e path, (onEntity e path).Appends)
    (hentity : ∀ e, TwinBelow refusal exposure (onEntity e) (onEntity' e)) (outline : Outline) :
    TwinBelow refusal exposure (outline.resolve onEntity) (outline.resolve onEntity') := by
  induction outline using induction_items with
  | leaf v =>
    have heq : (leaf v).resolve onEntity = (leaf v).resolve onEntity' := by
      funext path
      rw [resolve_leaf, resolve_leaf]
    rw [← heq]
    apply twinBelow_of_quiet
    intro path outcome events hruns
    rw [resolve_leaf] at hruns
    exact (Resolver.runs_pure_iff.1 hruns).2
  | failed error fatal =>
    have heq : (failed error fatal).resolve onEntity = (failed error fatal).resolve onEntity' := by
      funext path
      rw [resolve_failed, resolve_failed]
    rw [← heq]
    apply twinBelow_of_quiet
    intro path outcome events hruns
    rw [resolve_failed] at hruns
    exact (Resolver.runs_throw_iff.1 hruns).2
  | entity e =>
    have heq : ∀ onEntity : Entity → Path → Resolver Json,
        (entity e).resolve onEntity = onEntity e := by
      intro onEntity
      funext path
      rw [resolve_entity]
    rw [heq, heq]
    exact hentity e
  | list items ih =>
    have heq : ∀ onEntity : Entity → Path → Resolver Json,
        (list items).resolve onEntity =
          Resolver.assemble .array (items.zipIdx.map (itemTask onEntity)) := by
      intro onEntity
      funext path
      rw [resolve_list]
    rw [heq, heq]
    apply Resolver.twinBelow_assemble
    · rw [TwinTasks, List.forall₂_map_left_iff, List.forall₂_map_right_iff, List.forall₂_same]
      rintro ⟨item, i⟩ hitem
      exact ⟨rfl, (ih item (List.fst_mem_of_mem_zipIdx hitem)).toTwin⟩
    · intro t ht path
      obtain ⟨⟨item, i⟩, _, rfl⟩ := List.mem_map.1 ht
      exact item.appends_resolve happends path
    · have hframe := Json.frame_array items
      rwa [List.map_map]

namespace Execution

open Resolver (lift)

/-- The service refuses a request for the field at a path. -/
def answering (x : Execution) (refusal : Refusal) : Execution :=
  { x with client := fun path request =>
      if path = refusal.path ∧ request = refusal.request then .ok refusal.response
      else x.client path request }

variable {x : Execution} {refusal : Refusal} {o : ObjectType} {parent : Parent} {path : Path}
variable {s : Selection} {fields : List Selection}

theorem lookUp_answering (x : Execution) (refusal : Refusal) :
    (x.answering refusal).lookUp o parent s path = x.lookUp o parent s path := rfl

theorem read_answering {found : Found} (hpath : path ≠ refusal.path) :
    (x.answering refusal).read path found = x.read path found := by
  cases found with
  | outline outline => rfl
  | asked f url request =>
    have hclient : (x.answering refusal).client path request = x.client path request := by
      rw [answering]
      exact if_neg fun h => hpath h.1
    rw [read, read, answer, answer, hclient]
    rfl

theorem read_refused {f : Field} {url : String} :
    (x.answering refusal).read refusal.path (.asked f url refusal.request) =
      .error refusal.error := by
  have hclient : (x.answering refusal).client refusal.path refusal.request =
      .ok refusal.response := by
    rw [answering]
    exact if_pos ⟨rfl, rfl⟩
  have hresponse : Payload.ofResponse refusal.request.url refusal.response =
      .error refusal.error := by
    rw [Payload.ofResponse, refusal.refuses, Refusal.error, FieldError.ofRefusal]
    simp only [Bool.false_eq_true, if_false]
    split <;> rfl
  rw [read, answer, hclient]
  simp only [Except.mapError, bind, Except.bind, hresponse]

theorem recoverable_error (refusal : Refusal) : refusal.error.isRecoverable = true := by
  rw [Refusal.error, FieldError.ofRefusal]
  split <;> rfl

theorem twinBelow_resolveObject (hkeys : (fields.map (·.responseKey)).Nodup)
    (hfields : ∀ s ∈ fields, Twin refusal x.exposure (fun path => x.resolveField o parent path s)
      (fun path => (x.answering refusal).resolveField o parent path s)) :
    TwinBelow refusal x.exposure (x.resolveObject o parent fields)
      ((x.answering refusal).resolveObject o parent fields) := by
  have heq : ∀ x : Execution, x.resolveObject o parent fields =
      Resolver.assemble (objectOf (keysOn parent fields)) (x.fieldTasks o parent fields) := by
    intro x
    funext path
    rw [resolveObject_eq]
  rw [heq, heq]
  apply Resolver.twinBelow_assemble
  · rw [TwinTasks, fieldTasks, fieldTasks, List.forall₂_map_left_iff, List.forall₂_map_right_iff,
      List.forall₂_same]
    intro s hs
    exact ⟨rfl, hfields s (List.mem_of_mem_filter hs)⟩
  · exact appends_fieldTasks x o parent fields
  · exact frame_fieldTasks x o parent hkeys

theorem twinBelow_resolveEntity (hkeys : (fields.map (·.responseKey)).Nodup)
    (hfields : ∀ s ∈ fields, ∀ o parent,
      Twin refusal x.exposure (fun path => x.resolveField o parent path s)
        (fun path => (x.answering refusal).resolveField o parent path s)) (e : Entity) :
    TwinBelow refusal x.exposure (x.resolveEntity fields e)
      ((x.answering refusal).resolveEntity fields e) := by
  cases ho : x.registry.object? e.typeKey with
  | none =>
    have heq : ∀ x' : Execution, x'.registry = x.registry →
        x'.resolveEntity fields e = fun _ => throw (.missingObject e.typeName) := by
      intro x' hregistry
      funext path
      rw [resolveEntity, hregistry, ho]
    rw [heq x rfl, heq (x.answering refusal) rfl]
    apply twinBelow_of_quiet
    intro path outcome events hruns
    exact (Resolver.runs_throw_iff.1 hruns).2
  | some o =>
    have heq : ∀ x' : Execution, x'.registry = x.registry →
        x'.resolveEntity fields e = x'.resolveObject o (.entity e) fields := by
      intro x' hregistry
      funext path
      rw [resolveEntity, hregistry, ho]
    rw [heq x rfl, heq (x.answering refusal) rfl]
    exact twinBelow_resolveObject hkeys fun s hs => hfields s hs o (.entity e)

/-- What is refused at the field itself costs all that the field has come to. -/
theorem costs_of_lookUp {found : Found} {first rest : Log} {v : Json}
    (hfound : (x.lookUp o parent s refusal.path).Runs (.ok found) first)
    (hsent : .send refusal.path refusal.request ∈ first)
    (hwithin : ∀ event ∈ first ++ rest, event.IsWithin refusal.path) :
    refusal.Costs x.exposure refusal.path
      ((x.answering refusal).resolveField o parent refusal.path s) v (first ++ rest) [] := by
  obtain ⟨_, f, url, hasked⟩ := (lookingUp_of_lookUp hfound).sent _ _ hsent
  cases hasked
  refine ⟨(List.append_nil _).symm,
    first ++ [.fail (refusal.error.toGraphQL x.exposure (some refusal.path))], ?_, [], [], ?_, ?_⟩
  · rw [← lookUp_answering x refusal] at hfound
    exact runs_resolveField_refused hfound read_refused (recoverable_error refusal)
  · rw [Log.errors_append, (lookingUp_of_lookUp hfound).errors_eq_nil]
    rfl
  · rw [Log.filter_errors_eq_nil hwithin]
    rfl

/-- By induction on the selections: a refusal costs the field that made the request. -/
theorem twin_resolveField (s : Selection) (hkeys : Selection.DistinctKeys s.fields) :
    ∀ o parent, Twin refusal x.exposure (fun path => x.resolveField o parent path s)
      (fun path => (x.answering refusal).resolveField o parent path s) := by
  induction s using Selection.induction_below with
  | h s ih =>
    intro o parent
    have hsound := sound_of_resolveField (x := x) s hkeys o parent
    obtain ⟨hnodup, hbelow⟩ := hkeys
    have hentity : ∀ e, TwinBelow refusal x.exposure (x.resolveEntity s.fields e)
        ((x.answering refusal).resolveEntity s.fields e) :=
      twinBelow_resolveEntity hnodup fun t ht => ih t ht (hbelow t ht)
    have houtline := fun outline : Outline =>
      outline.twinBelow_resolve (appends_resolveEntity s.fields) hentity
    refine ⟨?_, hsound, ?_⟩
    · intro path hpath
      have hne : path ≠ refusal.path := by
        rintro rfl
        exact hpath List.prefix_rfl
      have hresolve : ∀ outline : Outline, outline.resolve (x.resolveEntity s.fields) path =
          outline.resolve ((x.answering refusal).resolveEntity s.fields) path := fun outline =>
        (houtline outline).same path hpath
      rw [resolveField_eq, resolveField_eq, fieldValue_eq_steps, fieldValue_eq_steps,
        lookUp_answering]
      simp only [read_answering hne, hresolve]
      rfl
    · intro path v events hruns hsent
      cases fieldRun_of_resolveField hruns with
      | refused hfound _ _ =>
        have hlookUp := (List.mem_append.1 hsent).resolve_right (by simp)
        obtain ⟨rfl, _⟩ := (lookingUp_of_lookUp hfound).sent _ _ hlookUp
        exact ⟨[], costs_of_lookUp hfound hlookUp (hsound _ _ _ hruns).within⟩
      | @resolved found outline _ first rest hfound hread hrest =>
        rcases List.mem_append.1 hsent with hsent | hsent
        · obtain ⟨rfl, _⟩ := (lookingUp_of_lookUp hfound).sent _ _ hsent
          exact ⟨[], costs_of_lookUp hfound hsent (hsound _ _ _ hruns).within⟩
        · obtain ⟨segment, hprefix⟩ := (houtline outline).below path _ _ hrest _ hsent
          have hne : path ≠ refusal.path := by
            rintro rfl
            exact absurd hprefix.length_le (by simp)
          obtain ⟨rest', hpath, events', hruns', htrades⟩ :=
            (houtline outline).refused path v rest hrest hsent
          have herrors := (lookingUp_of_lookUp hfound).errors_eq_nil
          refine ⟨rest', hpath, first ++ events', ?_, ?_⟩
          · rw [← lookUp_answering x refusal] at hfound
            exact runs_resolveField_resolved hfound ((read_answering hne).trans hread) hruns'
          · apply htrades.append_left
            rw [herrors]
            exact nofun

theorem twinBelow_resolveQueryRoot (hkeys : Selection.DistinctKeys fields) :
    TwinBelow refusal x.exposure (x.resolveQueryRoot fields)
      ((x.answering refusal).resolveQueryRoot fields) := by
  have hobject : TwinBelow refusal x.exposure (x.resolveObject x.registry.queryRoot .root fields)
      ((x.answering refusal).resolveObject x.registry.queryRoot .root fields) := by
    obtain ⟨hnodup, hbelow⟩ := hkeys
    exact twinBelow_resolveObject hnodup fun s hs => twin_resolveField s (hbelow s hs) _ _
  have hsound : ∀ path outcome events, (x.resolveQueryRoot fields path).Runs outcome events →
      SoundBelow path outcome events := fun path outcome events =>
    soundBelow_of_resolveQueryRoot hkeys
  refine ⟨⟨?_, fun path outcome events h => (hsound path outcome events h).toSound, ?_⟩,
    fun path outcome events h => (hsound path outcome events h).below⟩
  · intro path hpath
    rw [resolveQueryRoot, hobject.same path hpath]
    rfl
  · intro path v events hruns hsent
    rcases hruns.cases_bind (appends_preParse x path _ _) fun _ => appends_resolveObject _ _ _ _ with
      ⟨_, _, heq⟩ | ⟨_, parses, rest, hparses, hrest, rfl⟩
    · cases heq
    have hnot : ∀ event ∈ parses, ∃ context, event = .parse context := (parse_of_preParse hparses).1
    have hsent : .send refusal.path refusal.request ∈ rest := by
      apply (List.mem_append.1 hsent).resolve_left
      intro hmem
      obtain ⟨_, heq⟩ := hnot _ hmem
      cases heq
    obtain ⟨rest', hpath, events', hruns', htrades⟩ := hobject.refused path v rest hrest hsent
    refine ⟨rest', hpath, parses ++ events', hparses.bind hruns', htrades.append_left ?_⟩
    intro error herror
    obtain ⟨_, heq⟩ := hnot _ (Log.mem_errors.1 herror)
    cases heq

/-- No error that could be recovered gets out of a value. -/
theorem not_recoverable_of_resolveObject {error : FieldError}
    (h : (x.resolveObject o parent fields path).Gives (.error error)) :
    error.isRecoverable = false := by
  obtain ⟨s, _, _, h⟩ := exists_of_resolveFields_error (gives_resolveFields_of_resolveObject h)
  exact not_recoverable_of_resolveField h

theorem not_recoverable_of_resolveQueryRoot {error : FieldError}
    (h : (x.resolveQueryRoot fields path).Gives (.error error)) : error.isRecoverable = false := by
  rcases Resolver.gives_bind_error h with h | ⟨_, _, h⟩
  · obtain ⟨_, hruns⟩ := (appends_preParse x path _ _).runs_of_gives h
    exact (parse_of_preParse hruns).2 error rfl
  · exact not_recoverable_of_resolveObject h

/-- When a request of a run is refused, its field becomes null and one error is listed for it, in
place of all those that were listed for the field or below it. No recoverable error is left to a
caller, who would not list it. -/
theorem refusal_costs_field (x : Execution) (fields : List Selection) (path : Path) :
    (Selection.DistinctKeys fields → ∀ data events,
      (x.resolveQueryRoot fields path).Runs (.ok data) events → ∀ refusal : Refusal,
      .send refusal.path refusal.request ∈ events →
      ∃ (rest : Path) (error : FieldError) (events' : Log), refusal.path = path ++ rest ∧
        ((x.answering refusal).resolveQueryRoot fields path).Runs
          (.ok (data.replaceAt rest .null)) events' ∧
        (data.replaceAt rest .null).at? rest = some .null ∧
        Log.Trades refusal.path (error.toGraphQL x.exposure (some refusal.path)) events events' ∧
        ∃ details, (Payload.IsDenial refusal.response.body ∧
            error = .unauthorized refusal.request.url details) ∨
          (¬ Payload.IsDenial refusal.response.body ∧
            error = .remote refusal.request.url refusal.response.status details)) ∧
    (∀ error, (x.resolveQueryRoot fields path).Gives (.error error) →
      error.isRecoverable = false) ∧
    (∀ error, (x.resolveMutationRoot fields path).Gives (.error error) →
      error.isRecoverable = false) ∧
    ∀ type value error, (x.resolveValue type value fields path).Gives (.error error) →
      error.isRecoverable = false := by
  refine ⟨?_, fun _ => not_recoverable_of_resolveQueryRoot,
    fun _ => not_recoverable_of_resolveObject, fun _ _ _ => Resolver.not_recoverable_of_recover⟩
  intro hkeys data events hruns refusal hsent
  obtain ⟨rest, hpath, events', hruns', htrades⟩ :=
    (twinBelow_resolveQueryRoot hkeys).refused path data events hruns hsent
  refine ⟨rest, refusal.error, events', hpath, hruns', ?_, htrades, FieldError.ofRefusal_cases _ _⟩
  obtain ⟨before, after, herrors, _⟩ := htrades
  have hmem : refusal.error.toGraphQL x.exposure (some refusal.path) ∈ events'.errors := by
    rw [herrors]
    exact List.mem_append_right _ List.mem_cons_self
  have hposition := refusal.error.path_toGraphQL x.exposure refusal.path
  have hsound := soundBelow_of_resolveQueryRoot hkeys hruns'
  exact hsound.null _ rfl _ hmem rest (hposition.trans (congrArg some hpath))

end Execution

namespace Mascot

def friendRefused : Refusal where
  path := place
  request := { url := "http://zoo.test/odata/Mascot?$select=Name,id/Friend" }
  response := refusal
  refuses := rfl

theorem isDenial_refusal : Payload.IsDenial refusal.body := by
  rw [← Payload.errorCode_errorDetails_iff]
  decide +kernel

def sent : Log :=
  [.send [.field "zoo", .field "Mascot"] { url := mascotUrl }, .send place friendRefused.request]

theorem runs_answered : (answered.resolveQueryRoot [mascot] [.field "zoo"]).Runs
    (.ok (.object [("Mascot", .object [("Name", .string "Rex"),
      ("Friend", .object [("Name", .string "Max")])])])) sent :=
  (Engine.appends_rootValue (engine (named "Max")) false .query root [.field "zoo"]).runs run_root

end Mascot

/-- The mascot keeps its name when its friend is denied. -/
theorem refusal_costs_friend : Selection.DistinctKeys [Mascot.mascot] ∧
    ∃ (error : FieldError) (events : Log),
      ((Mascot.answered.answering Mascot.friendRefused).resolveQueryRoot [Mascot.mascot]
        [.field "zoo"]).Runs
        (.ok (.object [("Mascot", .object [("Name", .string "Rex"), ("Friend", .null)])])) events ∧
      Log.Trades Mascot.place (error.toGraphQL .censor (some Mascot.place)) Mascot.sent events ∧
      ∃ details, error = .unauthorized Mascot.friendRefused.request.url details := by
  have hsent : .send Mascot.place Mascot.friendRefused.request ∈ Mascot.sent :=
    List.mem_cons_of_mem _ List.mem_cons_self
  obtain ⟨rest, error, events, hpath, hruns, _, htrades, details, hcases⟩ :=
    (Execution.refusal_costs_field Mascot.answered [Mascot.mascot] [.field "zoo"]).1
      Mascot.distinctKeys_mascot _ _ Mascot.runs_answered Mascot.friendRefused hsent
  obtain rfl : [.field "Mascot", .field "Friend"] = rest := (List.cons.inj hpath).2
  refine ⟨Mascot.distinctKeys_mascot, error, events, hruns, htrades, details, ?_⟩
  rcases hcases with ⟨_, heq⟩ | ⟨hnot, _⟩
  · exact heq
  · exact absurd Mascot.isDenial_refusal hnot

end ODataGraph
