import Mathlib.Logic.Relation
import ODataGraph.Cache.Interleaving

/-!
A call that nobody interrupts. If nobody else is at work, its steps come to what
`RegistryCache.getOrBuild` says at once.
-/

namespace ODataGraph.Interleaving

/-- What changes while a single caller goes on. -/
structure Play where
  documents : RecordedSlots Csdl.Document
  registries : RecordedSlots Registry
  stage : Stage

namespace State

def playing (s : State) (i : Nat) (call : Call) (p : Play) : State where
  documents := p.documents
  registries := p.registries
  callers := s.callers.set i (.build call p.stage)

/-- The caller comes from one stage to another, and nobody else moves. -/
def Plays (s : State) (i : Nat) (call : Call) (p p' : Play) : Prop :=
  Relation.ReflTransGen (Step call.baseUrl) (s.playing i call p) (s.playing i call p')

variable {s : State} {i cell : Nat} {call : Call} {p p' p'' : Play}

theorem Plays.trans (h : s.Plays i call p p') (h' : s.Plays i call p' p'') : s.Plays i call p p'' :=
  Relation.ReflTransGen.trans h h'

theorem plays_of_step (h : Step call.baseUrl (s.playing i call p)
      (move ⟨p'.documents, p'.registries, (s.playing i call p).callers⟩ i (.build call p'.stage))) :
    s.Plays i call p p' := by
  rw [move, playing, List.set_set] at h
  exact .single h

theorem playing_begun (hc : s.callers[i]? = some (.build call .begun)) :
    s.playing i call ⟨s.documents, s.registries, .begun⟩ = s := by
  obtain ⟨hi, hget⟩ := List.getElem?_eq_some_iff.1 hc
  rw [playing, ← hget, List.set_getElem_self]

theorem getElem?_playing (hi : i < s.callers.length) :
    (s.playing i call p).callers[i]? = some (.build call p.stage) :=
  List.getElem?_set_self hi

theorem free_playing (hidle : ∀ c ∈ s.callers, c.fills? = none) (hstage : p.stage.fills? = none) :
    ∀ c ∈ (s.playing i call p).callers, c.fills? ≠ some cell := by
  intro c hc
  rcases List.mem_or_eq_of_mem_set hc with hc | rfl
  · simp [hidle c hc]
  · simp [Caller.fills?, hstage]

theorem fetches?_eq_none {c : Caller} (h : c.fills? = none) : c.fetches? = none := by
  cases c with
  | build call stage => cases stage <;> first | rfl | cases h
  | _ => rfl

theorem free_document_playing (hidle : ∀ c ∈ s.callers, c.fills? = none)
    (hstage : p.stage.fetches? = none) :
    ∀ c ∈ (s.playing i call p).callers, c.fetches? ≠ some cell := by
  intro c hc
  rcases List.mem_or_eq_of_mem_set hc with hc | rfl
  · simp [fetches?_eq_none (hidle c hc)]
  · simp [Caller.fetches?, hstage]

variable {documents : RecordedSlots Csdl.Document} {registries : RecordedSlots Registry}

theorem get_eq (client : Http.Client) (baseUrl : String) :
    DocumentCache.get documents.slots client baseUrl =
      match (documents.take baseUrl).slots.content? (documents.cellOf baseUrl) with
      | some d => (.ok d, (documents.take baseUrl).slots)
      | none =>
        match Csdl.Document.fetch client baseUrl with
        | .ok d => (.ok d, (documents.take baseUrl).slots.fill (documents.cellOf baseUrl) d)
        | .error e => (.error e, (documents.take baseUrl).slots) := rfl

theorem getOrBuild_eq (c : RegistryCache) (client : Http.Client) (call : Call)
    (hdocuments : c.documents = documents.slots) (hregistries : c.registries = registries.slots) :
    c.getOrBuild client call.service call.augmentation =
      match (registries.take call.baseUrl).slots.content? (registries.cellOf call.baseUrl) with
      | some r => (.ok r, ⟨documents.slots, (registries.take call.baseUrl).slots⟩)
      | none =>
        let (document, documents) := DocumentCache.get documents.slots client call.baseUrl
        match document.bind fun d => Registry.build call.service d call.augmentation with
        | .ok r => (.ok r, ⟨documents, (registries.take call.baseUrl).slots.fill
            (registries.cellOf call.baseUrl) r⟩)
        | .error e => (.error e, ⟨documents, (registries.take call.baseUrl).slots⟩) := by
  obtain ⟨_, _⟩ := c
  cases hdocuments
  cases hregistries
  rfl

/-- A call that is to build comes to a document, or fails, as `DocumentCache.get` says. -/
theorem plays_get (documents : RecordedSlots Csdl.Document) (registries : RecordedSlots Registry)
    (cell : Nat) (hi : i < s.callers.length) (hidle : ∀ c ∈ s.callers, c.fills? = none)
    (client : Http.Client) : ∃ documents' stage,
    s.Plays i call ⟨documents, registries, .started cell⟩ ⟨documents', registries, stage⟩ ∧
    documents'.slots = (DocumentCache.get documents.slots client call.baseUrl).2 ∧
    match (DocumentCache.get documents.slots client call.baseUrl).1 with
    | .ok d => ∃ document, stage = .building cell document d
    | .error e => stage = .failed cell e := by
  let document := documents.cellOf call.baseUrl
  have htake : s.Plays i call ⟨documents, registries, .started cell⟩
      ⟨documents.take call.baseUrl, registries, .awaiting cell document⟩ :=
    plays_of_step (.takeDocument (getElem?_playing hi))
  rw [get_eq]
  cases hcontent : (documents.take call.baseUrl).slots.content? document with
  | some d =>
    have hfind : s.Plays i call ⟨documents.take call.baseUrl, registries, .awaiting cell document⟩
        ⟨documents.take call.baseUrl, registries, .building cell document d⟩ :=
      plays_of_step (.findDocument (getElem?_playing hi) hcontent)
    exact ⟨_, _, htake.trans hfind, rfl, document, rfl⟩
  | none =>
    have hstart : s.Plays i call ⟨documents.take call.baseUrl, registries, .awaiting cell document⟩
        ⟨documents.take call.baseUrl, registries, .fetching cell document⟩ :=
      plays_of_step (.startFetch (getElem?_playing hi) hcontent (free_document_playing hidle rfl))
    cases hfetch : Csdl.Document.fetch client call.baseUrl with
    | ok d =>
      have hmake : s.Plays i call ⟨documents.take call.baseUrl, registries, .fetching cell document⟩
          ⟨(documents.take call.baseUrl).make call.baseUrl document d, registries,
            .fetched cell document d⟩ :=
        plays_of_step (.fetch (getElem?_playing hi) client hfetch)
      have hfill : s.Plays i call
          ⟨(documents.take call.baseUrl).make call.baseUrl document d, registries,
            .fetched cell document d⟩
          ⟨((documents.take call.baseUrl).make call.baseUrl document d).fill document d, registries,
            .building cell document d⟩ :=
        plays_of_step (.fillDocument (getElem?_playing hi))
      refine ⟨_, _, htake.trans (hstart.trans (hmake.trans hfill)), ?_⟩
      exact ⟨rfl, document, rfl⟩
    | error e =>
      have hfail : s.Plays i call ⟨documents.take call.baseUrl, registries, .fetching cell document⟩
          ⟨documents.take call.baseUrl, registries, .failed cell e⟩ :=
        plays_of_step (.failFetch (getElem?_playing hi) client hfetch)
      refine ⟨_, _, htake.trans (hstart.trans hfail), ?_⟩
      exact ⟨rfl, rfl⟩

/-- A call that starts while nobody is at work can return what `RegistryCache.getOrBuild` gives,
and leave the cache as that does. -/
theorem plays_getOrBuild (hc : s.callers[i]? = some (.build call .begun))
    (hidle : ∀ c ∈ s.callers, c.fills? = none) (client : Http.Client) :
    ∃ cell s', Relation.ReflTransGen (Step call.baseUrl) s s' ∧
      s'.cache = (s.cache.getOrBuild client call.service call.augmentation).2 ∧
      s'.callers = s.callers.set i (.build call (.returned cell
        (s.cache.getOrBuild client call.service call.augmentation).1)) := by
  obtain ⟨hi, _⟩ := List.getElem?_eq_some_iff.1 hc
  let cell := s.registries.cellOf call.baseUrl
  let registries := s.registries.take call.baseUrl
  have htake : s.Plays i call ⟨s.documents, s.registries, .begun⟩
      ⟨s.documents, registries, .waiting cell⟩ :=
    plays_of_step (.take (getElem?_playing hi))
  rw [Plays, playing_begun hc] at htake
  rw [getOrBuild_eq s.cache client call rfl rfl]
  cases hcontent : registries.slots.content? cell with
  | some r =>
    have hfind : s.Plays i call ⟨s.documents, registries, .waiting cell⟩
        ⟨s.documents, registries, .returned cell (.ok r)⟩ :=
      plays_of_step (.find (getElem?_playing hi) hcontent)
    exact ⟨cell, _, htake.trans hfind, rfl, rfl⟩
  | none =>
    have hstart : s.Plays i call ⟨s.documents, registries, .waiting cell⟩
        ⟨s.documents, registries, .started cell⟩ :=
      plays_of_step (.start (getElem?_playing hi) hcontent (free_playing hidle rfl))
    obtain ⟨documents, stage, hget, hslots, hstage⟩ :=
      plays_get s.documents registries cell hi hidle client
    have hbegun := htake.trans (hstart.trans hget)
    generalize DocumentCache.get s.documents.slots client call.baseUrl = result at hslots hstage
    obtain ⟨got, _⟩ := result
    cases hslots
    have hfail : ∀ e, s.Plays i call ⟨documents, registries, .failed cell e⟩
        ⟨documents, registries, .returned cell (.error e)⟩ :=
      fun e => plays_of_step (.giveUp (getElem?_playing hi))
    cases got with
    | error e =>
      cases hstage
      exact ⟨cell, _, hbegun.trans (hfail e), rfl, rfl⟩
    | ok d =>
      obtain ⟨document, rfl⟩ := hstage
      simp only [Except.bind]
      cases hbuild : Registry.build call.service d call.augmentation with
      | ok r =>
        have hmake : s.Plays i call ⟨documents, registries, .building cell document d⟩
            ⟨documents, registries.make call.baseUrl cell r, .built cell r⟩ :=
          plays_of_step (.build (getElem?_playing hi) hbuild)
        have hfill : s.Plays i call
            ⟨documents, registries.make call.baseUrl cell r, .built cell r⟩
            ⟨documents, (registries.make call.baseUrl cell r).fill cell r,
              .returned cell (.ok r)⟩ :=
          plays_of_step (.fill (getElem?_playing hi))
        exact ⟨cell, _, hbegun.trans (hmake.trans hfill), rfl, rfl⟩
      | error e =>
        have herror : s.Plays i call ⟨documents, registries, .building cell document d⟩
            ⟨documents, registries, .failed cell e⟩ :=
          plays_of_step (.failBuild (getElem?_playing hi) hbuild)
        exact ⟨cell, _, hbegun.trans (herror.trans (hfail e)), rfl, rfl⟩

end State

end ODataGraph.Interleaving
