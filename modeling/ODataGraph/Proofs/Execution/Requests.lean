import ODataGraph.Proofs.Execution.Coverage
import ODataGraph.Proofs.Execution.Visit

/-!
Where requests come from. Whatever is requested while a field is resolved is requested for the field
itself, or for a selection on an object below it. An object that came alone remembers the URL of the
request that it answers.
-/

namespace ODataGraph

open Relation (ReflTransGen)

def Event.isRequest : Event → Bool
  | .ask .. | .send .. => true
  | _ => false

namespace Outline

variable {onEntity : Entity → Path → Resolver Json} {outline : Outline} {path position : Path}
variable {e : Entity} {r : Registry}

/-- Every event of an outline is one of an object in it. -/
theorem exists_holds_of_event (hentity : ∀ e path, (onEntity e path).Appends)
    {outcome : Except FieldError Json} {events : Log}
    (h : (outline.resolve onEntity path).Runs outcome events) {event : Event}
    (hevent : event ∈ events) :
    ∃ e position outcome events, outline.Holds path e position ∧
      (onEntity e position).Runs outcome events ∧ event ∈ events := by
  obtain ⟨e, position, _, hreaches, outcome, events, hruns, hevent⟩ :=
    exists_reaches_of_event hentity h hevent
  exact ⟨e, position, outcome, events, hreaches.holds, hruns, hevent⟩

theorem standing_of_ofObject {key : String} {data : Json.Members}
    (h : (ofObject r key data).Holds path e position) :
    Entity.materialize r key data none = .ok e ∧ position = path := by
  rw [ofObject] at h
  split at h
  · rename_i heq
    cases h
    exact ⟨heq, rfl⟩
  · cases h

theorem standing_of_ofValue {fields : List Selection} {type : TypeReference} {value : Json}
    (h : (ofValue r type value).Holds path e position) :
    ∃ st, Json.Holds r fields type value path st ∧ st.entity r = .ok e ∧ st.path = position := by
  induction type generalizing value path with
  | scalar type =>
    cases value <;> simp only [ofValue] at h <;> cases h
  | named key =>
    cases value with
    | object data =>
      rw [ofValue] at h
      split at h
      · rename_i hc
        obtain ⟨he, rfl⟩ := standing_of_ofObject h
        exact ⟨_, .named hc, he, rfl⟩
      · cases h
    | null =>
      simp only [ofValue] at h
      cases h
    | _ =>
      simp only [ofValue] at h
      split at h <;> cases h
  | list element ih =>
    cases value with
    | array items =>
      rw [ofValue] at h
      cases h with
      | item hi h =>
        rw [List.getElem?_map, Option.map_eq_some_iff] at hi
        obtain ⟨value, hi, rfl⟩ := hi
        obtain ⟨st, hst, hstanding⟩ := ih h
        exact ⟨st, .item hi hst, hstanding⟩
    | _ =>
      simp only [ofValue] at h
      cases h
  | nonNull type ih =>
    cases value with
    | null =>
      simp only [ofValue] at h
      cases h
    | _ =>
      rw [ofValue] at h
      · obtain ⟨st, hst, hstanding⟩ := ih h
        exact ⟨st, .nonNull hst, hstanding⟩
      · rintro ⟨⟩

theorem standing_of_ofDecoded {fields : List Selection} {type : TypeReference} {payload : Payload}
    {url : String} {decoded : Decoded}
    (hdecoded : Decoded.ofPayload r type payload url false = .ok decoded)
    (h : (ofDecoded decoded).Holds path e position) :
    ∃ st, Payload.Holds r fields type payload url path st ∧ st.entity r = .ok e ∧
      st.path = position := by
  rcases Decoded.cases_ofPayload hdecoded with
    ⟨key, items, entities, hlist, hk, hc, hitems, hentities, rfl⟩ |
    ⟨key, body, e', hlist, hk, hc, hbody, he, rfl⟩ | ⟨_, rfl⟩
  · rw [ofDecoded] at h
    cases h with
    | item hi h =>
      rw [List.getElem?_map, Option.map_eq_some_iff] at hi
      obtain ⟨e', hi, rfl⟩ := hi
      obtain ⟨item, hitem, he⟩ := exists_getElem?_of_mapM_ok hentities hi
      obtain ⟨data, rfl, he⟩ := Decoded.entityOf_eq_ok_iff.1 he
      cases h
      exact ⟨_, .item hlist hk hc hitems hitem, he, rfl⟩
  · rw [ofDecoded] at h
    cases h
    obtain ⟨data, rfl, he⟩ := Decoded.entityOf_eq_ok_iff.1 he
    exact ⟨_, .whole hlist hk hc hbody, he, rfl⟩
  · rw [ofDecoded] at h
    cases h

end Outline

namespace Execution

variable {x : Execution} {o : ObjectType} {parent : Parent} {path position : Path} {s : Selection}
variable {fields : List Selection} {event : Event}

theorem get_of_ask {name url : String} {request : Http.Request} {payload : Payload}
    (hask : (x.ask path name url).Gives (.ok (some request)))
    (hanswer : x.answer path request = .ok payload) :
    (x.get path name url).Gives (.ok (some payload)) := by
  obtain ⟨_, hruns⟩ := (appends_ask x path name url).runs_of_gives hask
  rw [get_eq]
  apply Resolver.Runs.gives
  apply hruns.bind
  dsimp only
  rw [hanswer]
  exact Resolver.runs_pure (some payload)

/-- Every object in what is read for a field is one that the field hands on. -/
theorem Finds.hands {found : Found} {outline : Outline} {e : Entity}
    (h : x.Finds o parent path s found) (hread : x.read path found = .ok outline)
    (hholds : outline.Holds path e position) :
    ∃ st, x.Hands o parent path s st ∧ st.entity x.registry = .ok e ∧ st.path = position := by
  cases h with
  | typename hname =>
    cases hread
    cases hholds
  | null =>
    cases hread
    cases hholds
  | missing error fatal =>
    cases hread
    cases hholds
  | inline hname hf hsource =>
    cases hread
    obtain ⟨st, hst, hstanding⟩ := Outline.standing_of_ofValue hholds
    exact ⟨st, .inline hname hf hsource hst, hstanding⟩
  | asked hcall hask =>
    rw [read] at hread
    obtain ⟨payload, hanswer, hread⟩ := bind_eq_ok_iff.1 hread
    obtain ⟨decoded, hdecoded, hread⟩ := bind_eq_ok_iff.1 hread
    cases hread
    obtain ⟨st, hst, hstanding⟩ := Outline.standing_of_ofDecoded hdecoded hholds
    exact ⟨st, .remote hcall.name hcall.field hcall.source (get_of_ask hask hanswer) hst,
      hstanding⟩

/-- An event of the request for a selection on an object. -/
def AsksFor (x : Execution) (st : Standing) (event : Event) : Prop :=
  ∃ e o s, st.entity x.registry = .ok e ∧ x.registry.object? e.typeKey = some o ∧ s ∈ st.fields ∧
    s.appliesTo e.typeKey = true ∧
    x.RequestsFor o (.entity e) (st.path ++ [.field s.responseKey]) s event

/-- Of the request for a selection, or of one for a selection on an object below it. -/
def Causes (x : Execution) (o : ObjectType) (parent : Parent) (path : Path) (s : Selection)
    (event : Event) : Prop :=
  x.RequestsFor o parent path s event ∨
    ∃ start st, x.Hands o parent path s start ∧ ReflTransGen x.Next start st ∧ x.AsksFor st event

/-- Whatever happens while an object is resolved happens for one of its fields. -/
theorem exists_field_of_event {build : List Json → Json} {outcome : Except FieldError Json}
    {events : Log}
    (h : (Resolver.assemble build (x.fieldTasks o parent fields) path).Runs outcome events)
    (hevent : event ∈ events) :
    ∃ s ∈ fields, parent.selects s = true ∧ ∃ outcome events,
      (x.resolveField o parent (path ++ [.field s.responseKey]) s).Runs outcome events ∧
      event ∈ events := by
  obtain ⟨_, s, _, hs, _, hfound⟩ := exists_selected_of_event h hevent
  obtain ⟨hs, hselects⟩ := List.mem_filter.1 (List.mem_of_getElem? hs)
  exact ⟨s, hs, hselects, hfound⟩

theorem asksFor_of_resolveEntity {st : Standing} {e : Entity} {outcome : Except FieldError Json}
    {events : Log} (he : st.entity x.registry = .ok e)
    (hbelow : ∀ s ∈ st.fields, ∀ o parent path outcome events,
      (x.resolveField o parent path s).Runs outcome events → event ∈ events →
      x.Causes o parent path s event)
    (h : (x.resolveEntity st.fields e st.path).Runs outcome events) (hevent : event ∈ events) :
    ∃ st', ReflTransGen x.Next st st' ∧ x.AsksFor st' event := by
  rcases cases_resolveEntity x st.fields e with heq | ⟨o, ho, heq⟩
  · rw [heq] at h
    obtain ⟨_, rfl⟩ := Resolver.runs_throw_iff.1 h
    cases hevent
  rw [heq] at h
  obtain ⟨s, hs, happlies, _, _, hruns, hevent⟩ := exists_field_of_event h hevent
  rcases hbelow s hs o (.entity e) _ _ _ hruns hevent with
    hrequest | ⟨start, st', hstart, hway, hasks⟩
  · exact ⟨st, .refl, e, o, s, he, ho, hs, happlies, hrequest⟩
  · have hstep : x.Next st start := ⟨e, o, s, he, ho, hs, happlies, hstart⟩
    exact ⟨st', .head hstep hway, hasks⟩

/-- By induction on what is selected: whatever is requested is requested for the selection, or for
one on an object below it. -/
theorem causes_of_resolveField (hrequest : event.isRequest = true) (s : Selection) :
    ∀ o parent path outcome events, (x.resolveField o parent path s).Runs outcome events →
      event ∈ events → x.Causes o parent path s event := by
  induction s using Selection.induction_below with
  | h s ih =>
    intro o parent path outcome events h hevent
    have hlookUp : ∀ {outcome events}, (x.lookUp o parent s path).Runs outcome events →
        event ∈ events → x.Causes o parent path s event := by
      intro outcome events h hevent
      rcases (lookingUp_of_lookUp h).event event hevent with ⟨context, rfl⟩ | hrequests
      · cases hrequest
      · exact .inl hrequests
    cases fieldRun_of_resolveField h with
    | unfound hfound => exact hlookUp hfound hevent
    | refused hfound _ _ =>
      rcases List.mem_append.1 hevent with hevent | hevent
      · exact hlookUp hfound hevent
      · rw [List.mem_singleton.1 hevent] at hrequest
        cases hrequest
    | unread hfound _ _ => exact hlookUp hfound hevent
    | resolved hfound hread hrest =>
      rcases List.mem_append.1 hevent with hevent | hevent
      · exact hlookUp hfound hevent
      obtain ⟨e, position, _, _, hholds, hruns, hevent⟩ :=
        Outline.exists_holds_of_event (appends_resolveEntity s.fields) hrest hevent
      obtain ⟨start, hstart, he, rfl⟩ := (finds_of_lookUp hfound.gives).hands hread hholds
      have hfields := hstart.declared.2.1
      rw [← hfields] at hruns ih
      obtain ⟨st, hway, hasks⟩ := asksFor_of_resolveEntity he ih hruns hevent
      exact .inr ⟨start, st, hstart, hway, hasks⟩

/-- Nothing is requested before the root object of a service is resolved. -/
theorem exists_run_of_resolveQueryRoot {outcome : Except FieldError Json} {events : Log}
    (hrequest : event.isRequest = true) (h : (x.resolveQueryRoot fields path).Runs outcome events)
    (hevent : event ∈ events) :
    ∃ outcome events, (x.resolveObject x.registry.queryRoot .root fields path).Runs outcome events ∧
      event ∈ events := by
  obtain ⟨parses, hparses, hcases⟩ := cases_resolveQueryRoot h
  have hnot : event ∉ parses := by
    intro hmem
    obtain ⟨context, rfl⟩ := hparses event hmem
    cases hrequest
  rcases hcases with ⟨error, _, _, rfl⟩ | ⟨rest, hruns, rfl⟩
  · exact absurd hevent hnot
  · exact ⟨outcome, rest, hruns, (List.mem_append.1 hevent).resolve_left hnot⟩

end Execution

namespace Engine

theorem appends_rootValue (e : Engine) (cancelled : Bool) (kind : RootKind) (f : RootField)
    (path : Path) : (e.rootValue cancelled kind f path).Appends := by
  rw [rootValue]
  split
  · exact Resolver.appends_pure _
  · dsimp only
    split
    · exact (Execution.appends_preParse _ path _ _).bind fun _ =>
        Execution.appends_resolveObject _ _ _ _
    · exact Execution.appends_resolveObject _ _ _ _
  · apply (Resolver.appends_lift _).bind
    intro value
    rw [Execution.resolveValue, Outline.completeValue_eq]
    exact (Outline.appends_resolve (Execution.appends_resolveEntity f.fields) _ path).recover

end Engine

end ODataGraph
