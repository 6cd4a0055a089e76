import ODataGraph.Proofs.Cache.Interleaving
import ODataGraph.Proofs.Cache.LoneCall

/-!
Concurrent callers share one request for metadata and one build. In whatever order they take their
steps, no cell is filled twice, and no caller waits for one of another service.
-/

namespace ODataGraph.Interleaving

variable {s s' : State} {key : String}

namespace State

theorem Sound.removed_of_mem (h : s.Sound) (hkey : ∀ stage, .invalidate key stage ∉ s.callers) :
    key ∉ s.documents.removed ∧ key ∉ s.registries.removed := by
  have hnone : ∀ c ∈ s.callers, c.removes? ≠ some key := by
    intro c hc hremoves
    cases c with
    | invalidate baseUrl stage =>
      cases hremoves
      exact hkey stage hc
    | _ => cases hremoves
  rw [← not_or]
  intro hmem
  obtain ⟨c, hc, hremoves⟩ := h.removed key hmem
  exact hnone c hc hremoves

end State

theorem Caller.registryRole_of_registry {c : Caller} {cell : Nat} {r : Registry}
    (h : c.registry? = some (cell, r)) : c.registryRole = some ⟨c.baseUrl, cell, .has r⟩ := by
  cases c with
  | build call stage =>
    cases stage with
    | returned cell result =>
      cases result with
      | ok r =>
        cases h
        rfl
      | error e => cases h
    | _ => cases h
  | get baseUrl found =>
    rcases found with _ | _ | ⟨cell, r⟩
    · cases h
    · cases h
    · cases h
      rfl
  | invalidate baseUrl stage => cases h

theorem Caller.registryRole_of_fills {c : Caller} {cell : Nat} (h : c.fills? = some cell) :
    ∃ act, c.registryRole = some ⟨c.baseUrl, cell, act⟩ := by
  cases c with
  | build call stage =>
    cases stage <;> cases h <;> exact ⟨_, rfl⟩
  | _ => cases h

theorem Caller.documentRole_of_fetches {c : Caller} {cell : Nat} (h : c.fetches? = some cell) :
    ∃ act, c.documentRole = some ⟨c.baseUrl, cell, act⟩ := by
  cases c with
  | build call stage =>
    cases stage <;> cases h <;> exact ⟨_, rfl⟩
  | _ => cases h

namespace State

theorem exists_roles {α : Type} (role : Caller → Option (Role α)) {c : Caller}
    (hc : c ∈ s.callers) : ∃ i, s.callers[i]? = some c ∧ s.roles role i = role c := by
  obtain ⟨i, hi⟩ := List.mem_iff_getElem?.1 hc
  exact ⟨i, hi, roles_of hi⟩

/-- Callers at one cell are callers for one service. -/
theorem Sound.baseUrl_eq_of_fills (h : s.Sound) {c : Caller} {call : Call} {cell : Nat}
    (hc : c ∈ s.callers) (hfills : c.fills? = some cell)
    (hwaits : .build call (.waiting cell) ∈ s.callers) : c.baseUrl = call.baseUrl := by
  obtain ⟨owner, hr⟩ := h.registries
  obtain ⟨act, hrole⟩ := Caller.registryRole_of_fills hfills
  obtain ⟨i, _, hi⟩ := exists_roles Caller.registryRole hc
  obtain ⟨j, _, hj⟩ := exists_roles Caller.registryRole hwaits
  have howner := (hr.seats.placed i _ (hi.trans hrole)).2
  exact howner.symm.trans (hr.seats.placed j _ hj).2

theorem Sound.baseUrl_eq_of_fetches (h : s.Sound) {c : Caller} {call : Call} {cell document : Nat}
    (hc : c ∈ s.callers) (hfetches : c.fetches? = some document)
    (hwaits : .build call (.awaiting cell document) ∈ s.callers) : c.baseUrl = call.baseUrl := by
  obtain ⟨owner, hd⟩ := h.documents
  obtain ⟨act, hrole⟩ := Caller.documentRole_of_fetches hfetches
  obtain ⟨i, _, hi⟩ := exists_roles Caller.documentRole hc
  obtain ⟨j, _, hj⟩ := exists_roles Caller.documentRole hwaits
  have howner := (hd.seats.placed i _ (hi.trans hrole)).2
  exact howner.symm.trans (hd.seats.placed j _ hj).2

end State

/-- A caller for a service can go on. -/
def State.CanGoOn (s : State) (key : String) : Prop :=
  ∃ i c s', Step key s s' ∧ s'.callers = s.callers.set i c

theorem State.canGoOn_of_fetches {c : Caller} {document : Nat} (hc : c ∈ s.callers)
    (h : c.fetches? = some document) : s.CanGoOn c.baseUrl := by
  obtain ⟨i, hi⟩ := List.mem_iff_getElem?.1 hc
  cases c with
  | build call stage =>
    cases stage with
    | fetching cell document =>
      let client : Http.Client := fun _ => .error .connection
      cases hd : Csdl.Document.fetch client call.baseUrl with
      | ok d => exact ⟨i, _, _, .fetch hi client hd, rfl⟩
      | error e => exact ⟨i, _, _, .failFetch hi client hd, rfl⟩
    | fetched cell document d => exact ⟨i, _, _, .fillDocument hi, rfl⟩
    | _ => cases h
  | _ => cases h

theorem State.Sound.canGoOn_of_fills (hs : s.Sound) {c : Caller} {cell : Nat} (hc : c ∈ s.callers)
    (h : c.fills? = some cell) : s.CanGoOn c.baseUrl := by
  obtain ⟨i, hi⟩ := List.mem_iff_getElem?.1 hc
  cases c with
  | build call stage =>
    cases stage with
    | started cell => exact ⟨i, _, _, .takeDocument hi, rfl⟩
    | awaiting cell document =>
      cases hd : s.documents.slots.content? document with
      | some d => exact ⟨i, _, _, .findDocument hi hd, rfl⟩
      | none =>
        by_cases hfree : ∀ c ∈ s.callers, c.fetches? ≠ some document
        · exact ⟨i, _, _, .startFetch hi hd hfree, rfl⟩
        · simp only [not_forall, not_not] at hfree
          obtain ⟨c, hmem, hfetches⟩ := hfree
          have hkey : c.baseUrl = call.baseUrl := hs.baseUrl_eq_of_fetches hmem hfetches hc
          have hgo := canGoOn_of_fetches hmem hfetches
          rw [hkey] at hgo
          exact hgo
    | fetching cell document => exact canGoOn_of_fetches hc rfl
    | fetched cell document d => exact canGoOn_of_fetches hc rfl
    | building cell document d =>
      cases hr : Registry.build call.service d call.augmentation with
      | ok r => exact ⟨i, _, _, .build hi hr, rfl⟩
      | error e => exact ⟨i, _, _, .failBuild hi hr, rfl⟩
    | built cell r => exact ⟨i, _, _, .fill hi, rfl⟩
    | failed cell e => exact ⟨i, _, _, .giveUp hi, rfl⟩
    | _ => cases h
  | _ => cases h

/-- Nobody waits in vain, or for a caller of another service. -/
theorem State.Sound.canGoOn (hs : s.Sound) {c : Caller} (hc : c ∈ s.callers)
    (h : ¬ c.hasReturned) : s.CanGoOn c.baseUrl := by
  obtain ⟨i, hi⟩ := List.mem_iff_getElem?.1 hc
  cases c with
  | build call stage =>
    cases stage with
    | begun => exact ⟨i, _, _, .take hi, rfl⟩
    | waiting cell =>
      cases hr : s.registries.slots.content? cell with
      | some r => exact ⟨i, _, _, .find hi hr, rfl⟩
      | none =>
        by_cases hfree : ∀ c ∈ s.callers, c.fills? ≠ some cell
        · exact ⟨i, _, _, .start hi hr hfree, rfl⟩
        · simp only [not_forall, not_not] at hfree
          obtain ⟨c, hmem, hfills⟩ := hfree
          have hkey : c.baseUrl = call.baseUrl := hs.baseUrl_eq_of_fills hmem hfills hc
          have hgo := hs.canGoOn_of_fills hmem hfills
          rw [hkey] at hgo
          exact hgo
    | returned cell result => exact absurd rfl h
    | _ => exact hs.canGoOn_of_fills hc rfl
  | get baseUrl found =>
    cases found with
    | none => exact ⟨i, _, _, .get hi, rfl⟩
    | some found => exact absurd rfl h
  | invalidate baseUrl stage =>
    cases stage with
    | begun => exact ⟨i, _, _, .removeRegistry hi, rfl⟩
    | halfway => exact ⟨i, _, _, .removeDocument hi, rfl⟩
    | returned => exact absurd rfl h

/-- The steps of one service change nothing that another finds. -/
theorem State.Sound.get?_of_step (hs : s.Sound) (hstep : Step key s s') {other : String}
    (hother : other ≠ key) :
    s'.documents.slots.get? other = s.documents.slots.get? other ∧
      s'.registries.slots.get? other = s.registries.slots.get? other := by
  obtain ⟨owner, hd⟩ := hs.documents
  obtain ⟨owner', hr⟩ := hs.registries
  cases hstep with
  | take hc => exact ⟨rfl, s.registries.slots.get?_take hother⟩
  | takeDocument hc => exact ⟨s.documents.slots.get?_take hother, rfl⟩
  | fillDocument hc => exact ⟨hd.get?_fill_of_ne (roles_of hc) hother, rfl⟩
  | fill hc => exact ⟨rfl, hr.get?_fill_of_ne (roles_of hc) hother⟩
  | removeRegistry hc =>
    exact ⟨rfl, (s.registries.slots.get?_remove _ other).trans (if_neg hother)⟩
  | removeDocument hc =>
    exact ⟨(s.documents.slots.get?_remove _ other).trans (if_neg hother), rfl⟩
  | _ => exact ⟨rfl, rfl⟩

/-- What is in a cell stays in it. -/
theorem State.Sound.content?_of_step (hs : s.Sound) (hstep : Step key s s') :
    (∀ cell d, s.documents.slots.content? cell = some d →
      s'.documents.slots.content? cell = some d) ∧
    (∀ cell r, s.registries.slots.content? cell = some r →
      s'.registries.slots.content? cell = some r) := by
  obtain ⟨owner, hd⟩ := hs.documents
  obtain ⟨owner', hr⟩ := hs.registries
  cases hstep with
  | take hc =>
    exact ⟨fun _ _ => id, fun cell _ h => (s.registries.slots.content?_take _ cell).trans h⟩
  | takeDocument hc =>
    exact ⟨fun cell _ h => (s.documents.slots.content?_take _ cell).trans h, fun _ _ => id⟩
  | fillDocument hc =>
    exact ⟨fun _ _ => hd.seats.content?_fill_of_some (roles_of hc) rfl, fun _ _ => id⟩
  | fill hc => exact ⟨fun _ _ => id, fun _ _ => hr.seats.content?_fill_of_some (roles_of hc) rfl⟩
  | _ => exact ⟨fun _ _ => id, fun _ _ => id⟩

/-- What a caller has got is what its cell holds, and was made for its service. -/
theorem State.Sound.made_of_registry (hs : s.Sound) {c : Caller} (hc : c ∈ s.callers) {cell : Nat}
    {r : Registry} (h : c.registry? = some (cell, r)) :
    s.registries.slots.content? cell = some r ∧ ⟨c.baseUrl, cell, r⟩ ∈ s.registries.made := by
  obtain ⟨owner, hr⟩ := hs.registries
  obtain ⟨i, _, hi⟩ := exists_roles Caller.registryRole hc
  rw [Caller.registryRole_of_registry h] at hi
  exact ⟨hr.seats.got i _ r hi rfl, hr.made_of_has hi rfl⟩

/-- Callers share what one of them makes. -/
structure State.SharesWork (s : State) : Prop where
  filled_once : s.documents.filled.Nodup ∧ s.registries.filled.Nodup
  /-- Whoever gets a registry from one cell gets the same registry. -/
  same_registry : ∀ c ∈ s.callers, ∀ c' ∈ s.callers, ∀ cell r r',
    c.registry? = some (cell, r) → c'.registry? = some (cell, r') → r = r'
  /-- For a service that nobody removes, one request succeeds and one registry is built, which is
  the one that all its callers get. -/
  one_build : ∀ key, (∀ stage, .invalidate key stage ∉ s.callers) →
    (s.documents.madeFor key).length ≤ 1 ∧ (s.registries.madeFor key).length ≤ 1 ∧
      ∀ c ∈ s.callers, c.baseUrl = key → ∀ cell r, c.registry? = some (cell, r) →
        s.registries.madeFor key = [⟨key, cell, r⟩]
  /-- The steps of a service leave alone what others find. -/
  apart : ∀ key s', Step key s s' → ∀ other ≠ key,
    s'.documents.slots.get? other = s.documents.slots.get? other ∧
      s'.registries.slots.get? other = s.registries.slots.get? other
  /-- What is in a cell stays in it. -/
  stays : ∀ key s', Step key s s' →
    (∀ cell d, s.documents.slots.content? cell = some d →
      s'.documents.slots.content? cell = some d) ∧
    (∀ cell r, s.registries.slots.content? cell = some r →
      s'.registries.slots.content? cell = some r)
  /-- As long as a caller has not returned, it or another one for its service can go on. -/
  goes_on : ∀ c ∈ s.callers, ¬ c.hasReturned → s.CanGoOn c.baseUrl

theorem sharesWork_of_reachable (h : Reachable s) : s.SharesWork := by
  have hs := h.sound
  obtain ⟨owner, hd⟩ := hs.documents
  obtain ⟨owner', hr⟩ := hs.registries
  constructor
  case filled_once => exact ⟨hd.filled_nodup, hr.filled_nodup⟩
  case same_registry =>
    intro c hc c' hc' cell r r' hget hget'
    have hcontent := (hs.made_of_registry hc hget).1
    rw [(hs.made_of_registry hc' hget').1] at hcontent
    exact (Option.some.inj hcontent).symm
  case one_build =>
    intro key hkey
    obtain ⟨hdocuments, hregistries⟩ := hs.removed_of_mem hkey
    refine ⟨hd.length_madeFor_le hdocuments, hr.length_madeFor_le hregistries, ?_⟩
    rintro c hc rfl cell r hget
    exact hr.madeFor_eq (hs.made_of_registry hc hget).2 hregistries
  case apart => exact fun key s' hstep other => hs.get?_of_step hstep
  case stays => exact fun key s' hstep => hs.content?_of_step hstep
  case goes_on => exact fun c => hs.canGoOn

theorem Reachable.steps (h : Reachable s) (hsteps : Relation.ReflTransGen (Step key) s s') :
    Reachable s' := by
  induction hsteps with
  | refl => exact h
  | tail _ hstep ih => exact ih.step hstep

def kennelClient : Http.Client := fun _ => .ok {
  status := ⟨200⟩
  body := "<Schema Namespace=\"Zoo\"><EntityType Name=\"Dog\"/></Schema>".toUTF8.toList }

def zooCall : Call := ⟨⟨"zoo", "http://zoo.test/odata"⟩, none⟩

/-- A call for the same service under another label. -/
def petsCall : Call := ⟨⟨"pets", "http://zoo.test/odata"⟩, none⟩

theorem sharesWork_of_kennel : ∃ s cell r, Reachable s ∧
    s.callers = [.build petsCall (.returned cell (.ok r)), .build zooCall (.returned cell (.ok r))] ∧
    s.registries.madeFor "http://zoo.test/odata" = [⟨"http://zoo.test/odata", cell, r⟩] := by
  -- The second call takes the cell before the first one does, and waits until that has built.
  let taken : RecordedSlots Registry := ({} : RecordedSlots Registry).take petsCall.baseUrl
  let s : State :=
    ⟨{}, taken, [.build petsCall (.waiting 0), .build zooCall .begun]⟩
  have hs : Reachable s := by
    have hcalls : Reachable ⟨{}, {}, [.build petsCall .begun, .build zooCall .begun]⟩ :=
      (Reachable.start.step (.call (.build petsCall .begun) rfl)).step
        (.call (.build zooCall .begun) rfl)
    exact hcalls.step (.take (i := 0) rfl)
  have hbuilt : (s.cache.getOrBuild kennelClient zooCall.service zooCall.augmentation).1.isOk ∧
      ((s.cache.getOrBuild kennelClient zooCall.service
        zooCall.augmentation).2.registries.content? 0).isSome := by
    decide +kernel
  have hidle : ∀ c ∈ s.callers, c.fills? = none := by
    intro c hc
    rcases List.mem_pair.1 hc with rfl | rfl <;> rfl
  have hbegun : s.callers[1]? = some (.build zooCall .begun) := rfl
  obtain ⟨cell, s', hsteps, hcache, hcallers⟩ :=
    State.plays_getOrBuild hbegun hidle kennelClient
  generalize s.cache.getOrBuild kennelClient zooCall.service zooCall.augmentation = result
    at hbuilt hcache hcallers
  obtain ⟨⟨e⟩ | r, cache⟩ := result
  · cases hbuilt.1
  obtain ⟨r', hr'⟩ := Option.isSome_iff_exists.1 hbuilt.2
  rw [← hcache] at hr'
  have hwaits : s'.callers[0]? = some (.build petsCall (.waiting 0)) := by
    rw [hcallers]
    rfl
  have hreachable := (hs.steps hsteps).step (.find hwaits hr')
  have hreturned : (s'.move 0 (.build petsCall (.returned 0 (.ok r')))).callers =
      [.build petsCall (.returned 0 (.ok r')), .build zooCall (.returned cell (.ok r))] := by
    rw [State.move, hcallers]
    rfl
  obtain ⟨_, _, hmade⟩ :=
    (sharesWork_of_reachable hreachable).one_build "http://zoo.test/odata" (by simp [hreturned])
  have hpets := hmade _ (hreturned ▸ List.mem_cons_self) rfl _ _ rfl
  have hzoo := hmade _ (hreturned ▸ List.mem_cons_of_mem _ List.mem_cons_self) rfl _ _ rfl
  cases hpets.symm.trans hzoo
  exact ⟨_, _, _, hreachable, hreturned, hpets⟩

end ODataGraph.Interleaving
