import ODataGraph.Proofs.Execution.Position
import ODataGraph.Proofs.Execution.RelativeRequest

/-!
Where errors are listed. Every listed error has the path of a field of its own, and the value that
comes out has null there. Errors that were listed before another error ended their root field stay
in the list, where they keep their paths.
-/

namespace ODataGraph

/-- Nothing is sent or listed but for places that begin with a path. -/
def Event.IsWithin (path : Path) : Event → Prop
  | .send position _ => path <+: position
  | .fail error => ∃ position, error.path = some position ∧ path <+: position
  | _ => True

theorem Event.IsWithin.mono {path longer : Path} {event : Event} (hpath : path <+: longer)
    (h : event.IsWithin longer) : event.IsWithin path := by
  cases event with
  | send position _ => exact hpath.trans h
  | fail error =>
    obtain ⟨position, hposition, hprefix⟩ := h
    exact ⟨position, hposition, hpath.trans hprefix⟩
  | _ => trivial

theorem eq_of_prefixes {path position : Path} {a b : PathSegment}
    (ha : path ++ [a] <+: position) (hb : path ++ [b] <+: position) : a = b := by
  have hprefix : path ++ [a] <+: path ++ [b] :=
    List.prefix_of_prefix_length_le ha hb (by simp)
  have heq := hprefix.eq_of_length (by simp)
  simpa using heq

theorem FieldError.path_toGraphQL (error : FieldError) (exposure : Exposure) (path : Path) :
    (error.toGraphQL exposure (some path)).path = some path := by
  rw [toGraphQL]
  split <;> rfl

namespace Log

theorem errors_append (first rest : Log) : errors (first ++ rest) = first.errors ++ rest.errors :=
  List.filterMap_append

theorem mem_errors {log : Log} {error : GraphQLError} :
    error ∈ log.errors ↔ .fail error ∈ log := by
  rw [errors, List.mem_filterMap]
  constructor
  · rintro ⟨event, hevent, heq⟩
    cases event with
    | fail error' =>
      cases heq
      exact hevent
    | _ => cases heq
  · intro h
    exact ⟨_, h, rfl⟩

end Log

/-- The errors in the log of a value have paths of their own, with null at their ends. -/
structure Sound (path : Path) (outcome : Except FieldError Json) (events : Log) : Prop where
  within : ∀ event ∈ events, event.IsWithin path
  null : ∀ v, outcome = .ok v → ∀ error ∈ events.errors, ∀ rest,
    error.path = some (path ++ rest) → v.at? rest = some .null
  nodup : (events.errors.map (·.path)).Nodup

/-- The same, with all errors below the value itself. -/
structure SoundBelow (path : Path) (outcome : Except FieldError Json) (events : Log) : Prop
    extends Sound path outcome events where
  below : ∀ event ∈ events, ∃ segment, event.IsWithin (path ++ [segment])

/-- The same for values of tasks, each of which has a segment of its own. -/
structure SoundInTurn (path : Path) (segments : List PathSegment)
    (outcome : Except FieldError (List Json)) (events : Log) : Prop where
  within : ∀ event ∈ events, ∃ segment ∈ segments, event.IsWithin (path ++ [segment])
  length : ∀ values, outcome = .ok values → values.length = segments.length
  null : ∀ values, outcome = .ok values → ∀ error ∈ events.errors, ∃ (i : Nat) (segment : PathSegment)
    (v : Json) (rest : Path), segments[i]? = some segment ∧ values[i]? = some v ∧
      error.path = some (path ++ segment :: rest) ∧ v.at? rest = some .null
  nodup : (events.errors.map (·.path)).Nodup

theorem soundBelow_of_nil (path : Path) (outcome : Except FieldError Json) :
    SoundBelow path outcome [] :=
  ⟨⟨nofun, fun _ _ => nofun, List.nodup_nil⟩, nofun⟩

theorem Sound.append {path : Path} {outcome : Except FieldError Json} {first rest : Log}
    (hwithin : ∀ event ∈ first, event.IsWithin path) (hnone : first.errors = [])
    (h : Sound path outcome rest) : Sound path outcome (first ++ rest) := by
  have herrors : Log.errors (first ++ rest) = rest.errors := by
    rw [Log.errors_append, hnone, List.nil_append]
  refine ⟨?_, ?_, ?_⟩
  · intro event hevent
    exact (List.mem_append.1 hevent).elim (hwithin event) (h.within event)
  · rw [herrors]
    exact h.null
  · rw [herrors]
    exact h.nodup

theorem SoundBelow.append_parses {path : Path} {outcome : Except FieldError Json}
    {parses rest : Log} (hparses : ∀ event ∈ parses, ∃ context, event = .parse context)
    (h : SoundBelow path outcome rest) : SoundBelow path outcome (parses ++ rest) := by
  have hwithin : ∀ path, ∀ event ∈ parses, event.IsWithin path := by
    intro path event hevent
    obtain ⟨context, rfl⟩ := hparses event hevent
    trivial
  have hnone : parses.errors = [] := by
    rw [List.eq_nil_iff_forall_not_mem]
    intro error herror
    obtain ⟨context, heq⟩ := hparses _ (Log.mem_errors.1 herror)
    cases heq
  refine ⟨h.toSound.append (hwithin path) hnone, ?_⟩
  intro event hevent
  rcases List.mem_append.1 hevent with hevent | hevent
  · exact ⟨.index 0, hwithin _ event hevent⟩
  · exact h.below event hevent

namespace Resolver

variable {path : Path} {tasks : List Task}

/-- Errors of different tasks have different paths. -/
theorem nodup_errors_append {segment : PathSegment} {segments : List PathSegment}
    {first more : Log} (hnot : segment ∉ segments)
    (hfirst : ∀ event ∈ first, event.IsWithin (path ++ [segment]))
    (hmore : ∀ event ∈ more, ∃ segment ∈ segments, event.IsWithin (path ++ [segment]))
    (hnodup : (first.errors.map (·.path)).Nodup) (hnodup' : (more.errors.map (·.path)).Nodup) :
    ((Log.errors (first ++ more)).map (·.path)).Nodup := by
  rw [Log.errors_append, List.map_append, List.nodup_append]
  refine ⟨hnodup, hnodup', ?_⟩
  intro a ha b hb hab
  obtain ⟨error, herror, rfl⟩ := List.mem_map.1 ha
  obtain ⟨error', herror', rfl⟩ := List.mem_map.1 hb
  obtain ⟨position, hposition, hprefix⟩ := hfirst _ (Log.mem_errors.1 herror)
  obtain ⟨segment', hsegment', position', hposition', hprefix'⟩ :=
    hmore _ (Log.mem_errors.1 herror')
  rw [hposition, hposition', Option.some.injEq] at hab
  rw [← hab] at hprefix'
  rw [eq_of_prefixes hprefix hprefix'] at hnot
  exact hnot hsegment'

theorem soundInTurn (happends : ∀ t ∈ tasks, ∀ path, (t.2 path).Appends)
    (hsound : ∀ t ∈ tasks, ∀ path outcome events, (t.2 path).Runs outcome events →
      Sound path outcome events) (hnodup : (tasks.map Prod.fst).Nodup)
    {outcome : Except FieldError (List Json)} {events : Log}
    (h : (inTurn path tasks).Runs outcome events) :
    SoundInTurn path (tasks.map Prod.fst) outcome events := by
  induction tasks generalizing outcome events with
  | nil =>
    obtain ⟨rfl, rfl⟩ := runs_pure_iff.1 h
    refine ⟨nofun, ?_, fun _ _ => nofun, List.nodup_nil⟩
    intro values heq
    cases heq
    rfl
  | cons t rest ih =>
    obtain ⟨hnot, hrest⟩ := List.nodup_cons.1 hnodup
    have hhead := hsound t List.mem_cons_self (path ++ [t.1])
    rcases h.cases_inTurn happends with
      ⟨error, hfails, rfl⟩ | ⟨v, outcome', first, more, hfirst, hmore, rfl, rfl⟩
    · have hsound := hhead _ _ hfails
      exact ⟨fun event hevent => ⟨t.1, List.mem_cons_self, hsound.within event hevent⟩, nofun, nofun,
        hsound.nodup⟩
    have hfirst := hhead _ _ hfirst
    have hmore := ih (fun t ht => happends t (List.mem_cons_of_mem _ ht))
      (fun t ht => hsound t (List.mem_cons_of_mem _ ht)) hrest hmore
    have hvalues : ∀ values, outcome'.map (v :: ·) = .ok values →
        ∃ values', outcome' = .ok values' ∧ values = v :: values' := by
      intro values heq
      cases outcome' with
      | error error => cases heq
      | ok values' =>
        cases heq
        exact ⟨values', rfl, rfl⟩
    refine ⟨?_, ?_, ?_, nodup_errors_append hnot hfirst.within hmore.within hfirst.nodup hmore.nodup⟩
    · intro event hevent
      rcases List.mem_append.1 hevent with hevent | hevent
      · exact ⟨t.1, List.mem_cons_self, hfirst.within event hevent⟩
      · obtain ⟨segment, hsegment, hwithin⟩ := hmore.within event hevent
        exact ⟨segment, List.mem_cons_of_mem _ hsegment, hwithin⟩
    · intro values heq
      obtain ⟨values', heq', rfl⟩ := hvalues values heq
      rw [List.length_cons, hmore.length values' heq', List.map_cons, List.length_cons]
    · intro values heq error herror
      obtain ⟨values', heq', rfl⟩ := hvalues values heq
      rw [Log.errors_append] at herror
      rcases List.mem_append.1 herror with herror | herror
      · obtain ⟨position, hposition, more', rfl⟩ := hfirst.within _ (Log.mem_errors.1 herror)
        refine ⟨0, t.1, v, more', rfl, rfl, ?_, hfirst.null v rfl error herror more' hposition⟩
        rw [hposition, List.append_assoc, List.singleton_append]
      · obtain ⟨i, segment, v', more', hsegment, hv', hposition, hnull⟩ :=
          hmore.null values' heq' error herror
        exact ⟨i + 1, segment, v', more', hsegment, hv', hposition, hnull⟩

/-- Errors of tasks keep their places when the values are put together. -/
theorem soundBelow_of_assemble {build : List Json → Json}
    (hframe : Json.Frame build (tasks.map Prod.fst))
    (happends : ∀ t ∈ tasks, ∀ path, (t.2 path).Appends)
    (hsound : ∀ t ∈ tasks, ∀ path outcome events, (t.2 path).Runs outcome events →
      Sound path outcome events)
    {outcome : Except FieldError Json} {events : Log}
    (h : (assemble build tasks path).Runs outcome events) : SoundBelow path outcome events := by
  obtain ⟨outcome', hruns, rfl⟩ := h.of_assemble happends
  have hinTurn := soundInTurn happends hsound hframe.nodup hruns
  have hbelow : ∀ event ∈ events, ∃ segment, event.IsWithin (path ++ [segment]) := by
    intro event hevent
    obtain ⟨segment, _, hwithin⟩ := hinTurn.within event hevent
    exact ⟨segment, hwithin⟩
  refine ⟨⟨?_, ?_, hinTurn.nodup⟩, hbelow⟩
  · intro event hevent
    obtain ⟨segment, hwithin⟩ := hbelow event hevent
    exact hwithin.mono (List.prefix_append path [segment])
  · intro v heq error herror rest hposition
    cases outcome' with
    | error error => cases heq
    | ok values =>
      cases heq
      obtain ⟨i, segment, v, rest', hsegment, hv, hposition', hnull⟩ :=
        hinTurn.null values rfl error herror
      rw [hposition, Option.some.injEq, List.append_cancel_left_eq] at hposition'
      rw [hposition', hframe.at?_cons (hinTurn.length values rfl) hsegment hv, hnull]

end Resolver

theorem Outline.soundBelow_of_resolve {onEntity : Entity → Path → Resolver Json}
    (happends : ∀ e path, (onEntity e path).Appends)
    (hentity : ∀ e path outcome events, (onEntity e path).Runs outcome events →
      SoundBelow path outcome events)
    {outline : Outline} {path : Path} {outcome : Except FieldError Json} {events : Log}
    (h : (outline.resolve onEntity path).Runs outcome events) : SoundBelow path outcome events := by
  induction outline using induction_items generalizing path outcome events with
  | leaf v =>
    rw [resolve_leaf] at h
    obtain ⟨_, rfl⟩ := Resolver.runs_pure_iff.1 h
    exact soundBelow_of_nil path outcome
  | failed error fatal =>
    rw [resolve_failed] at h
    obtain ⟨_, rfl⟩ := Resolver.runs_throw_iff.1 h
    exact soundBelow_of_nil path outcome
  | entity e =>
    rw [resolve_entity] at h
    exact hentity e path outcome events h
  | list items ih =>
    rw [resolve_list] at h
    apply Resolver.soundBelow_of_assemble _ _ _ h
    · have hframe := Json.frame_array items
      rwa [List.map_map]
    · intro t ht path
      obtain ⟨⟨item, i⟩, _, rfl⟩ := List.mem_map.1 ht
      exact item.appends_resolve happends path
    · intro t ht path outcome events hruns
      obtain ⟨⟨item, i⟩, hitem, rfl⟩ := List.mem_map.1 ht
      exact (ih item (List.fst_mem_of_mem_zipIdx hitem) hruns).toSound

/-- No two selections have one response key, and so at any depth. -/
inductive Selection.DistinctKeys : List Selection → Prop
  | intro {fields : List Selection} (nodup : (fields.map (·.responseKey)).Nodup)
      (below : ∀ s ∈ fields, DistinctKeys s.fields) : DistinctKeys fields

namespace Execution

variable {x : Execution} {o : ObjectType} {parent : Parent} {path : Path} {s : Selection}
variable {fields : List Selection} {outcome : Except FieldError Json} {events : Log}

theorem frame_fieldTasks (x : Execution) (o : ObjectType) (parent : Parent)
    (h : (fields.map (·.responseKey)).Nodup) :
    Json.Frame (objectOf (keysOn parent fields)) ((x.fieldTasks o parent fields).map Prod.fst) := by
  have hkeys : (keysOn parent fields).Nodup :=
    (List.filter_sublist.map (fun s : Selection => s.responseKey)).nodup h
  have hframe := frame_objectOf hkeys
  rw [keysOn, List.map_map] at hframe
  rw [fieldTasks, List.map_map]
  exact hframe

theorem soundBelow_of_resolveObject (hkeys : (fields.map (·.responseKey)).Nodup)
    (hbelow : ∀ s ∈ fields, ∀ path outcome events,
      (x.resolveField o parent path s).Runs outcome events → Sound path outcome events)
    (h : (x.resolveObject o parent fields path).Runs outcome events) :
    SoundBelow path outcome events := by
  rw [resolveObject_eq] at h
  apply Resolver.soundBelow_of_assemble (frame_fieldTasks x o parent hkeys) _ _ h
  · exact appends_fieldTasks x o parent fields
  · intro t ht
    obtain ⟨s, hs, rfl⟩ := List.mem_map.1 ht
    exact hbelow s (List.mem_of_mem_filter hs)

theorem soundBelow_of_resolveEntity {e : Entity} (hkeys : (fields.map (·.responseKey)).Nodup)
    (hbelow : ∀ s ∈ fields, ∀ o parent path outcome events,
      (x.resolveField o parent path s).Runs outcome events → Sound path outcome events)
    (h : (x.resolveEntity fields e path).Runs outcome events) : SoundBelow path outcome events := by
  rw [resolveEntity] at h
  cases ho : x.registry.object? e.typeKey with
  | none =>
    rw [ho] at h
    obtain ⟨_, rfl⟩ := Resolver.runs_throw_iff.1 h
    exact soundBelow_of_nil path outcome
  | some o =>
    rw [ho] at h
    exact soundBelow_of_resolveObject hkeys (fun s hs => hbelow s hs o (.entity e)) h

theorem within_of_lookUp {outcome : Except FieldError Found}
    (h : (x.lookUp o parent s path).Runs outcome events) : ∀ event ∈ events, event.IsWithin path := by
  intro event hevent
  have hlooking := lookingUp_of_lookUp h
  cases event with
  | send position request =>
    rw [(hlooking.sent position request hevent).1]
    exact List.prefix_rfl
  | fail error =>
    have hnone := hlooking.errors_eq_nil
    rw [List.eq_nil_iff_forall_not_mem] at hnone
    exact absurd (Log.mem_errors.2 hevent) (hnone error)
  | _ => trivial

/-- A look-up lists no error. -/
theorem sound_of_lookUp {found : Except FieldError Found} (outcome : Except FieldError Json)
    (h : (x.lookUp o parent s path).Runs found events) : Sound path outcome events := by
  have hnone := (lookingUp_of_lookUp h).errors_eq_nil
  refine ⟨within_of_lookUp h, ?_, ?_⟩
  · intro v _ error herror
    rw [hnone] at herror
    cases herror
  · rw [hnone]
    exact List.nodup_nil

/-- By induction on the selections: an error of a field is that of the field itself, whose value is
null then, or the objects in its value are sound. -/
theorem sound_of_resolveField (s : Selection) (hkeys : Selection.DistinctKeys s.fields) :
    ∀ o parent path outcome events, (x.resolveField o parent path s).Runs outcome events →
      Sound path outcome events := by
  induction s using Selection.induction_below with
  | h s ih =>
    intro o parent path outcome events h
    obtain ⟨hnodup, hbelow⟩ := hkeys
    cases fieldRun_of_resolveField h with
    | unfound hfound => exact sound_of_lookUp _ hfound
    | @refused found error before hfound hread herror =>
      have hpath := error.path_toGraphQL x.exposure path
      have herrors : Log.errors (before ++ [.fail (error.toGraphQL x.exposure (some path))]) =
          [error.toGraphQL x.exposure (some path)] := by
        rw [Log.errors_append, (lookingUp_of_lookUp hfound).errors_eq_nil]
        rfl
      refine ⟨?_, ?_, ?_⟩
      · intro event hevent
        rcases List.mem_append.1 hevent with hevent | hevent
        · exact within_of_lookUp hfound event hevent
        · rw [List.mem_singleton.1 hevent]
          exact ⟨path, hpath, List.prefix_rfl⟩
      · intro v heq error' herror' rest hposition
        cases heq
        rw [herrors, List.mem_singleton] at herror'
        rw [herror', hpath, Option.some.injEq, List.self_eq_append_right] at hposition
        rw [hposition, Json.at?]
      · rw [herrors]
        exact List.nodup_singleton _
    | unread hfound _ _ => exact sound_of_lookUp _ hfound
    | resolved hfound _ hrest =>
      have hsound := Outline.soundBelow_of_resolve (appends_resolveEntity s.fields)
        (fun e path outcome events =>
          soundBelow_of_resolveEntity hnodup fun t ht => ih t ht (hbelow t ht)) hrest
      exact hsound.toSound.append (within_of_lookUp hfound)
        (lookingUp_of_lookUp hfound).errors_eq_nil

theorem soundBelow_of_resolveQueryRoot (hkeys : Selection.DistinctKeys fields)
    (h : (x.resolveQueryRoot fields path).Runs outcome events) : SoundBelow path outcome events := by
  obtain ⟨hnodup, hbelow⟩ := hkeys
  obtain ⟨parses, hparses, ⟨error, _, _, rfl⟩ | ⟨rest, hrest, rfl⟩⟩ := cases_resolveQueryRoot h
  · rw [← List.append_nil events]
    exact (soundBelow_of_nil path outcome).append_parses hparses
  · apply SoundBelow.append_parses hparses
    exact soundBelow_of_resolveObject hnodup
      (fun s hs => sound_of_resolveField s (hbelow s hs) _ _) hrest

end Execution

/-- An operation without two selections of one response key, at any depth. -/
structure Operation.DistinctKeys (operation : Operation) : Prop where
  root : (operation.fields.map (·.responseKey)).Nodup
  below : ∀ f ∈ operation.fields, Selection.DistinctKeys f.fields

namespace Engine

variable {e : Engine} {cancelled : Bool} {kind : RootKind} {f : RootField}
variable {outcome : Except FieldError Json} {events : Log}

/-- A root field ends with an error, which is not recoverable. -/
def Fails (e : Engine) (cancelled : Bool) (kind : RootKind) (f : RootField) : Prop :=
  ∃ error, (e.rootValue cancelled kind f [.field f.responseKey]).Gives (.error error)

end Engine

/-! The mascot when its friend is refused. -/

namespace Mascot

def refusal : Http.Response where
  status := ⟨403⟩
  body := Text.Utf8.encode "\x7b\"error\":\x7b\"code\":\"Authorization_RequestDenied\"\x7d\x7d"

theorem distinctKeys_mascot : Selection.DistinctKeys [mascot] := by
  have hleaf : Selection.DistinctKeys [] := ⟨List.nodup_nil, nofun⟩
  have hname : Selection.DistinctKeys [petName] := by
    refine ⟨List.nodup_singleton _, ?_⟩
    intro s hs
    rw [List.mem_singleton.1 hs]
    exact hleaf
  have hpet : Selection.DistinctKeys [petName, friend] := by
    refine ⟨by decide, ?_⟩
    intro s hs
    rcases List.mem_pair.1 hs with rfl | rfl
    · exact hleaf
    · exact hname
  refine ⟨List.nodup_singleton _, ?_⟩
  intro s hs
  rw [List.mem_singleton.1 hs]
  exact hpet

end Mascot

end ODataGraph
