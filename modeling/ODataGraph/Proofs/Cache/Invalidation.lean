import ODataGraph.Proofs.Cache.History
import ODataGraph.Proofs.Cache.SingleFlight

/-!
What an invalidation leaves behind. It removes the registry of a service first and the document
after that, so that a call which looks the document up in between builds a registry of the old
document, for the cell that later calls find.
-/

namespace ODataGraph.Interleaving.History

variable {h : History} {t t' t₀ t₁ t₂ i j : Nat} {key : String} {call : Call}
variable {cell document : Nat} {r : Registry}

/-- Before a time, a registry has been built for a cell from the document of another cell. -/
def Compiled (h : History) (t : Nat) (key : String) (cell : Nat) (r : Registry)
    (document : Nat) : Prop :=
  ∃ u < t, ∃ (f : Nat) (call : Call) (d : Csdl.Document), call.baseUrl = key ∧
    h.Has u f (.build call (.building cell document d)) ∧
      Registry.build call.service d call.augmentation = .ok r ∧
        h.Has (u + 1) f (.build call (.built cell r))

/-- At a time, the document of a cell has been fetched. -/
def Fetched (h : History) (t document : Nat) : Prop :=
  ∃ m ∈ (h.state t).documents.made, m.cell = document

/-- Between the two removals of an invalidation, a call that is to fill the cell of a registry takes
the cell of a document to build it from. -/
def TakesBetween (h : History) (i : Nat) (key : String) (cell document : Nat) : Prop :=
  ∃ (t f : Nat) (call : Call), h.Has t i (.invalidate key .halfway) ∧ call.baseUrl = key ∧
    h.Has t f (.build call (.started cell)) ∧
      h.Has (t + 1) f (.build call (.awaiting cell document))

theorem Fetched.lt_length (hf : h.Fetched t document) :
    document < (h.state t).documents.slots.cells.length := by
  obtain ⟨m, hm, rfl⟩ := hf
  obtain ⟨_, hd⟩ := (h.reachable t).sound.documents
  exact (hd.made_owner m hm).1

theorem Fetched.of_le (hf : h.Fetched t document) (hle : t ≤ t') : h.Fetched t' document := by
  obtain ⟨m, hm, hcell⟩ := hf
  have hm' := h.lasts (fun _ _ _ hstep => hstep.mem_documents_made) hle hm
  exact ⟨m, hm', hcell⟩

theorem eq_cellOf_of_takeDocument (h : History)
    (hstarted : h.Has t i (.build call (.started cell)))
    (hawaiting : h.Has (t + 1) i (.build call (.awaiting cell document))) :
    document = (h.state t).documents.cellOf call.baseUrl := by
  rcases h.step t with hsame | ⟨key, hstep⟩
  · rw [Has, hsame, hstarted] at hawaiting
    cases hawaiting
  · rcases hstep.cases_origin hawaiting rfl with ⟨stage, hbefore, horigin⟩ | ⟨_, _, hdocument⟩
    · rw [hstarted] at hbefore
      cases hbefore
      cases horigin
    · exact hdocument

/-- Whoever is to fill a cell is at one that has been taken. -/
theorem cell_lt_length_of_started (hs : h.Has t i (.build call (.started cell))) :
    cell < (h.state t).registries.slots.cells.length := by
  obtain ⟨_, hr⟩ := (h.reachable t).sound.registries
  exact (hr.seats.placed i _ (State.roles_of hs)).1

theorem exists_compiled (hj : h.Has t j (.build call (.returned cell (.ok r)))) :
    ∃ document, h.Compiled t call.baseUrl cell r document := by
  have hmade := ((h.reachable t).sound.made_of_registry (List.mem_of_getElem? hj) rfl).2
  obtain ⟨u, hu, f, call', document, d, hkey, hbuilding, hbuild, hbuilt⟩ := h.exists_build hmade
  exact ⟨document, u, hu, f, call', d, hkey, hbuilding, hbuild, hbuilt⟩

/-- A call that begins after an invalidation has returned gets a registry of a document fetched
before the invalidation only if that document was looked up between the two removals. -/
theorem takesBetween_of_stale (h : History) (hnew : h.Lacks t₀ i)
    (hreturned : h.Has t₁ i (.invalidate key .returned)) (hlater : h.Lacks t₁ j)
    (hgot : h.Has t₂ j (.build call (.returned cell (.ok r)))) (hkey : call.baseUrl = key) :
    (∃ document, h.Compiled t₂ key cell r document) ∧
      ∀ document, h.Compiled t₂ key cell r document → h.Fetched t₀ document →
        h.TakesBetween i key cell document := by
  apply And.intro
  · rw [← hkey]
    exact exists_compiled hgot
  intro document hcompiled hfetched
  obtain ⟨u, _, f, builder, d, hbuilder, hbuilding, _, _⟩ := hcompiled
  obtain ⟨t, _, hstarted, hawaiting, hdocument⟩ := h.exists_takeDocument hbuilding rfl
  obtain ⟨a, b, hab, hb, hbegun, hregistries, hdocuments, hbetween⟩ := h.exists_removals hreturned
  refine ⟨t, f, builder, hbetween t ?_ ?_, hbuilder, hstarted, hawaiting⟩
  · -- The cell is a new one, and was there when the document was looked up for it.
    obtain ⟨v, hv, hcell⟩ := h.exists_take hlater hgot rfl
    have hav : a < v := Nat.lt_of_lt_of_le (Nat.lt_trans hab hb) hv
    have hnewer :=
      (h.renewed Step.registries_next hregistries (Nat.le_refl a) hav).le_cellOf
    rw [← hkey, ← hcell] at hnewer
    apply Nat.lt_of_not_le
    intro hta
    have hlt := Nat.lt_of_lt_of_le (cell_lt_length_of_started hstarted)
      (h.length_le Step.registries_next hta)
    exact Nat.lt_irrefl cell (Nat.lt_of_lt_of_le hlt hnewer)
  · -- The document is an old one, and its key stood for it when it was looked up.
    apply Nat.le_of_not_lt
    intro hbt
    have hab' : t₀ ≤ b := Nat.le_of_lt (Nat.lt_trans (h.lt_of_lacks hnew hbegun) hab)
    have hnewer := (h.renewed Step.documents_next hdocuments hab' hbt).le_cellOf
    rw [← hbuilder, ← hdocument] at hnewer
    exact Nat.lt_irrefl document (Nat.lt_of_lt_of_le hfetched.lt_length hnewer)

/-- Whoever comes after two invalidations, one after the other, gets no registry of a document
fetched before the first. -/
theorem not_fetched_of_twice (h : History) {t₃ i' : Nat} (hnew : h.Lacks t₀ i)
    (hreturned : h.Has t₁ i (.invalidate key .returned)) (hagain : h.Lacks t₁ i')
    (hreturned' : h.Has t₂ i' (.invalidate key .returned)) (hlater : h.Lacks t₂ j)
    (hgot : h.Has t₃ j (.build call (.returned cell (.ok r)))) (hkey : call.baseUrl = key)
    (hcompiled : h.Compiled t₃ key cell r document) : ¬ h.Fetched t₀ document := by
  intro hfetched
  have hle : t₀ ≤ t₁ := Nat.le_of_lt (h.lt_of_lacks hnew hreturned)
  obtain ⟨t, f, builder, hhalfway, hbuilder, hstarted, hawaiting⟩ :=
    (h.takesBetween_of_stale hagain hreturned' hlater hgot hkey).2 document hcompiled
      (hfetched.of_le hle)
  obtain ⟨a, b, hab, hb, hbegun, _, hdocuments, _⟩ := h.exists_removals hreturned
  have hbt : b < t := Nat.lt_trans hb (h.lt_of_lacks hagain hhalfway)
  have hbefore : t₀ ≤ b := Nat.le_of_lt (Nat.lt_trans (h.lt_of_lacks hnew hbegun) hab)
  have hnewer := (h.renewed Step.documents_next hdocuments hbefore hbt).le_cellOf
  rw [← hbuilder, ← h.eq_cellOf_of_takeDocument hstarted hawaiting] at hnewer
  exact Nat.lt_irrefl document (Nat.lt_of_lt_of_le hfetched.lt_length hnewer)

/-- One call fetches a document and another one builds of it while it is removed, so that a third
call finds the registry. -/
def staleState (d : Csdl.Document) (r : Registry) (t : Nat) : State :=
  let url := zooCall.baseUrl
  let documents : RecordedSlots Csdl.Document := ({} : RecordedSlots Csdl.Document).take url
  let fetched := documents.make url 0 d
  let filled := fetched.fill 0 d
  let first : RecordedSlots Registry := ({} : RecordedSlots Registry).take url
  let removed := first.remove url
  let second := removed.take url
  let made := second.make url 1 r
  let stale := made.fill 1 r
  let fetcher := Caller.build zooCall (.building 0 0 d)
  let halfway := Caller.invalidate url .halfway
  let returned := Caller.invalidate url .returned
  let builder := Caller.build petsCall (.returned 1 (.ok r))
  match t with
  | 0 => {}
  | 1 => ⟨{}, {}, [.build zooCall .begun]⟩
  | 2 => ⟨{}, first, [.build zooCall (.waiting 0)]⟩
  | 3 => ⟨{}, first, [.build zooCall (.started 0)]⟩
  | 4 => ⟨documents, first, [.build zooCall (.awaiting 0 0)]⟩
  | 5 => ⟨documents, first, [.build zooCall (.fetching 0 0)]⟩
  | 6 => ⟨fetched, first, [.build zooCall (.fetched 0 0 d)]⟩
  | 7 => ⟨filled, first, [fetcher]⟩
  | 8 => ⟨filled, first, [fetcher, .invalidate url .begun]⟩
  | 9 => ⟨filled, removed, [fetcher, halfway]⟩
  | 10 => ⟨filled, removed, [fetcher, halfway, .build petsCall .begun]⟩
  | 11 => ⟨filled, second, [fetcher, halfway, .build petsCall (.waiting 1)]⟩
  | 12 => ⟨filled, second, [fetcher, halfway, .build petsCall (.started 1)]⟩
  | 13 => ⟨filled, second, [fetcher, halfway, .build petsCall (.awaiting 1 0)]⟩
  | 14 => ⟨filled, second, [fetcher, halfway, .build petsCall (.building 1 0 d)]⟩
  | 15 => ⟨filled, made, [fetcher, halfway, .build petsCall (.built 1 r)]⟩
  | 16 => ⟨filled, stale, [fetcher, halfway, builder]⟩
  | 17 => ⟨filled.remove url, stale, [fetcher, returned, builder]⟩
  | 18 => ⟨filled.remove url, stale, [fetcher, returned, builder, .build zooCall .begun]⟩
  | 19 => ⟨filled.remove url, stale.take url,
      [fetcher, returned, builder, .build zooCall (.waiting 1)]⟩
  | _ => ⟨filled.remove url, stale.take url,
      [fetcher, returned, builder, .build zooCall (.returned 1 (.ok r))]⟩

theorem step_staleState {d : Csdl.Document} {r : Registry} {client : Http.Client}
    (hd : Csdl.Document.fetch client zooCall.baseUrl = .ok d)
    (hr : Registry.build petsCall.service d petsCall.augmentation = .ok r) (t : Nat) :
    staleState d r (t + 1) = staleState d r t ∨
      ∃ key, Step key (staleState d r t) (staleState d r (t + 1)) := by
  match t with
  | 0 => exact .inr ⟨_, .call (.build zooCall .begun) rfl⟩
  | 1 => exact .inr ⟨_, .take (i := 0) rfl⟩
  | 2 =>
    apply Or.inr
    refine ⟨_, .start (i := 0) rfl rfl ?_⟩
    simp [staleState, Caller.fills?, Stage.fills?]
  | 3 => exact .inr ⟨_, .takeDocument (i := 0) rfl⟩
  | 4 =>
    apply Or.inr
    refine ⟨_, .startFetch (i := 0) rfl rfl ?_⟩
    simp [staleState, Caller.fetches?, Stage.fetches?]
  | 5 => exact .inr ⟨_, .fetch (i := 0) rfl client hd⟩
  | 6 => exact .inr ⟨_, .fillDocument (i := 0) rfl⟩
  | 7 => exact .inr ⟨_, .call (.invalidate zooCall.baseUrl .begun) rfl⟩
  | 8 => exact .inr ⟨_, .removeRegistry (i := 1) rfl⟩
  | 9 => exact .inr ⟨_, .call (.build petsCall .begun) rfl⟩
  | 10 =>
    have hbegun : (staleState d r 10).callers[2]? = some (.build petsCall .begun) := rfl
    exact .inr ⟨_, .take hbegun⟩
  | 11 =>
    apply Or.inr
    refine ⟨_, .start (i := 2) rfl rfl ?_⟩
    simp [staleState, Caller.fills?, Stage.fills?]
  | 12 =>
    have hstarted : (staleState d r 12).callers[2]? = some (.build petsCall (.started 1)) := rfl
    exact .inr ⟨_, .takeDocument hstarted⟩
  | 13 => exact .inr ⟨_, .findDocument (i := 2) rfl rfl⟩
  | 14 => exact .inr ⟨_, .build (i := 2) rfl hr⟩
  | 15 => exact .inr ⟨_, .fill (i := 2) rfl⟩
  | 16 => exact .inr ⟨_, .removeDocument (i := 1) rfl⟩
  | 17 => exact .inr ⟨_, .call (.build zooCall .begun) rfl⟩
  | 18 => exact .inr ⟨_, .take (i := 3) rfl⟩
  | 19 => exact .inr ⟨_, .find (i := 3) rfl rfl⟩
  | _ + 20 => exact .inl rfl

theorem exists_stale : ∃ (h : History) (r : Registry), h.Lacks 7 1 ∧
    h.Has 17 1 (.invalidate zooCall.baseUrl .returned) ∧ h.Lacks 17 3 ∧
      h.Has 20 3 (.build zooCall (.returned 1 (.ok r))) ∧
        h.Compiled 20 zooCall.baseUrl 1 r 0 ∧ h.Fetched 7 0 := by
  have hbuilt : ((Csdl.Document.fetch kennelClient zooCall.baseUrl).bind fun d =>
      Registry.build petsCall.service d petsCall.augmentation).isOk := by
    decide +kernel
  cases hd : Csdl.Document.fetch kennelClient zooCall.baseUrl with
  | error e =>
    rw [hd] at hbuilt
    cases hbuilt
  | ok d =>
    rw [hd] at hbuilt
    cases hr : Registry.build petsCall.service d petsCall.augmentation with
    | error e =>
      rw [Except.bind, hr] at hbuilt
      cases hbuilt
    | ok r =>
      let h : History := ⟨staleState d r, rfl, step_staleState hd hr⟩
      refine ⟨h, r, rfl, rfl, rfl, rfl, ?_, ?_⟩
      · exact ⟨14, by decide, 2, petsCall, d, rfl, rfl, hr, rfl⟩
      · exact ⟨⟨zooCall.baseUrl, 0, d⟩, List.mem_singleton_self _, rfl⟩

theorem takesBetween_of_kennel : ∃ (h : History) (r : Registry), h.Lacks 7 1 ∧
    h.Has 17 1 (.invalidate zooCall.baseUrl .returned) ∧ h.Lacks 17 3 ∧
      h.Has 20 3 (.build zooCall (.returned 1 (.ok r))) ∧
        h.Compiled 20 zooCall.baseUrl 1 r 0 ∧ h.Fetched 7 0 ∧
          h.TakesBetween 1 zooCall.baseUrl 1 0 := by
  obtain ⟨h, r, hnew, hreturned, hlater, hgot, hcompiled, hfetched⟩ := exists_stale
  have htakes := (h.takesBetween_of_stale hnew hreturned hlater hgot rfl).2 0 hcompiled hfetched
  exact ⟨h, r, hnew, hreturned, hlater, hgot, hcompiled, hfetched, htakes⟩

/-- An invalidation does not keep later calls from getting a registry of a document that was fetched
before it. -/
theorem not_forall_not_fetched : ¬ ∀ (h : History) (t₀ t₁ t₂ i j : Nat) (key : String) (call : Call)
    (cell document : Nat) (r : Registry), h.Lacks t₀ i →
      h.Has t₁ i (.invalidate key .returned) → h.Lacks t₁ j →
        h.Has t₂ j (.build call (.returned cell (.ok r))) → call.baseUrl = key →
          h.Compiled t₂ key cell r document → ¬ h.Fetched t₀ document := by
  intro hfinal
  obtain ⟨h, r, hnew, hreturned, hlater, hgot, hcompiled, hfetched⟩ := exists_stale
  exact hfinal h 7 17 20 1 3 zooCall.baseUrl zooCall 1 0 r hnew hreturned hlater hgot rfl hcompiled
    hfetched

end ODataGraph.Interleaving.History
