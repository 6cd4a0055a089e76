import ODataGraph.Proofs.Cache.Interleaving

/-!
What came before. Callers of a cache are where they are because of earlier steps: whatever holds at
some time and did not hold at first is the effect of one step, and has held ever since.
-/

namespace ODataGraph

namespace RecordedSlots

variable {α : Type u} {x y : RecordedSlots α} {key key' : String} {n : Nat}

/-- What a step does to a layer of cells. -/
inductive Next : RecordedSlots α → RecordedSlots α → Prop
  | same (x : RecordedSlots α) : Next x x
  | take (x : RecordedSlots α) (key : String) : Next x (x.take key)
  | make (x : RecordedSlots α) (key : String) (cell : Nat) (a : α) : Next x (x.make key cell a)
  | fill (x : RecordedSlots α) (cell : Nat) (a : α) : Next x (x.fill cell a)
  | remove (x : RecordedSlots α) (key : String) : Next x (x.remove key)

/-- A key stands for none of the first cells. -/
def Renewed (x : RecordedSlots α) (n : Nat) (key : String) : Prop :=
  n ≤ x.slots.cells.length ∧ ∀ cell, x.slots.current.get? key = some cell → n ≤ cell

theorem Next.length_le (h : Next x y) : x.slots.cells.length ≤ y.slots.cells.length := by
  cases h with
  | take key =>
    rcases x.slots.cases_take key with ⟨hsame, _⟩ | ⟨_, _, hcells⟩
    · simp only [RecordedSlots.take, hsame, Nat.le_refl]
    · rw [RecordedSlots.take, hcells, List.length_append]
      exact Nat.le_add_right _ _
  | fill cell a => exact Nat.le_of_eq List.length_set.symm
  | _ => exact Nat.le_refl _

theorem Renewed.le_cellOf (h : x.Renewed n key) : n ≤ x.cellOf key := by
  rcases x.slots.cases_take key with ⟨_, hcurrent⟩ | ⟨_, hcell, _⟩
  · exact h.2 _ hcurrent
  · rw [cellOf, hcell]
    exact h.1

theorem Renewed.of_le {n' : Nat} (h : x.Renewed n key) (hle : n' ≤ n) : x.Renewed n' key :=
  ⟨Nat.le_trans hle h.1, fun cell hcell => Nat.le_trans hle (h.2 cell hcell)⟩

theorem Renewed.next (h : x.Renewed n key) (hnext : Next x y) : y.Renewed n key := by
  apply And.intro (Nat.le_trans h.1 hnext.length_le)
  intro cell hcell
  cases hnext with
  | take key' =>
    rw [take, Slots.get?_current_take] at hcell
    split at hcell
    · rename_i hkey
      rw [← Option.some.inj hcell, ← hkey]
      exact h.le_cellOf
    · exact h.2 cell hcell
  | remove key' =>
    rw [remove, Slots.remove, OrderedMap.get?_erase] at hcell
    split at hcell
    · cases hcell
    · exact h.2 cell hcell
  | _ => exact h.2 cell hcell

theorem renewed_remove (x : RecordedSlots α) (key : String) :
    (x.remove key).Renewed x.slots.cells.length key := by
  apply And.intro (Nat.le_refl _)
  intro cell hcell
  rw [remove, Slots.remove, OrderedMap.get?_erase, if_pos rfl] at hcell
  cases hcell

end RecordedSlots

namespace Interleaving

variable {s s' : State} {i : Nat} {key baseUrl : String}

/-- The cell of a registry that a call has taken. -/
def Stage.cell? : Stage → Option Nat
  | .begun => none
  | .waiting cell | .started cell | .awaiting cell _ | .fetching cell _ | .fetched cell _ _
  | .building cell _ _ | .built cell _ | .failed cell _ | .returned cell _ => some cell

/-- The cell of a registry that a call is to fill, with the cell of the document that it is to be
built from. -/
def Stage.origin? : Stage → Option (Nat × Nat)
  | .awaiting cell document | .fetching cell document | .fetched cell document _
  | .building cell document _ => some (cell, document)
  | _ => none

theorem Stage.eq_begun_of_isNew {call : Call} {stage : Stage}
    (h : (Caller.build call stage).isNew) : stage = .begun := by
  cases stage <;> first | rfl | cases h

theorem State.getElem?_move (s : State) (i j : Nat) (c : Caller) :
    (s.move i c).callers[j]? = if i = j then s.callers[j]?.map fun _ => c else s.callers[j]? := by
  rw [State.move, List.getElem?_set]
  by_cases hij : i = j
  · rw [if_pos hij, if_pos hij, hij]
    by_cases hj : j < s.callers.length
    · rw [if_pos hj, List.getElem?_eq_getElem hj]
      rfl
    · rw [if_neg hj, List.getElem?_eq_none (Nat.le_of_not_lt hj)]
      rfl
  · rw [if_neg hij, if_neg hij]

theorem State.getElem?_call {c c' : Caller} (h : (s.callers ++ [c])[i]? = some c') :
    s.callers[i]? = some c' ∨ c' = c := by
  rw [List.getElem?_append] at h
  split at h
  · exact .inl h
  · exact .inr (List.mem_singleton.1 (List.mem_of_getElem? h))

namespace Step

theorem documents_next (key : String) (s s' : State) (h : Step key s s') :
    s.documents.Next s'.documents := by
  cases h with
  | takeDocument _ => exact .take s.documents _
  | fetch _ _ _ => exact .make s.documents _ _ _
  | fillDocument _ => exact .fill s.documents _ _
  | removeDocument _ => exact .remove s.documents _
  | _ => exact .same s.documents

theorem registries_next (key : String) (s s' : State) (h : Step key s s') :
    s.registries.Next s'.registries := by
  cases h with
  | take _ => exact .take s.registries _
  | build _ _ => exact .make s.registries _ _ _
  | fill _ => exact .fill s.registries _ _
  | removeRegistry _ => exact .remove s.registries _
  | _ => exact .same s.registries

theorem length_callers_le (h : Step key s s') : s.callers.length ≤ s'.callers.length := by
  cases h with
  | call c _ =>
    rw [List.length_append]
    exact Nat.le_add_right _ _
  | _ => exact Nat.le_of_eq List.length_set.symm

/-- A call that has a cell had it before, or takes the one that its key stands for. -/
theorem cases_cell (h : Step key s s') {call : Call} {stage : Stage} {cell : Nat}
    (hi : s'.callers[i]? = some (.build call stage)) (hcell : stage.cell? = some cell) :
    (∃ stage, s.callers[i]? = some (.build call stage) ∧ stage.cell? = some cell) ∨
      cell = s.registries.cellOf call.baseUrl := by
  cases h with
  | call c hnew =>
    rcases State.getElem?_call hi with hi | rfl
    · exact .inl ⟨stage, hi, hcell⟩
    · rw [Stage.eq_begun_of_isNew hnew] at hcell
      cases hcell
  | _ =>
    simp only [State.getElem?_move] at hi
    grind [Stage.cell?]

theorem cases_origin (h : Step key s s') {call : Call} {stage : Stage} {cell document : Nat}
    (hi : s'.callers[i]? = some (.build call stage))
    (horigin : stage.origin? = some (cell, document)) :
    (∃ stage, s.callers[i]? = some (.build call stage) ∧
        stage.origin? = some (cell, document)) ∨
      s.callers[i]? = some (.build call (.started cell)) ∧
        s'.callers[i]? = some (.build call (.awaiting cell document)) ∧
          document = s.documents.cellOf call.baseUrl := by
  cases h with
  | call c hnew =>
    rcases State.getElem?_call hi with hi | rfl
    · exact .inl ⟨stage, hi, horigin⟩
    · rw [Stage.eq_begun_of_isNew hnew] at horigin
      cases horigin
  | _ =>
    simp only [State.getElem?_move] at hi ⊢
    grind [Stage.origin?]

theorem cases_halfway (h : Step key s s')
    (hi : s'.callers[i]? = some (.invalidate baseUrl .halfway)) :
    s.callers[i]? = some (.invalidate baseUrl .halfway) ∨
      s.callers[i]? = some (.invalidate baseUrl .begun) ∧
        s'.registries = s.registries.remove baseUrl := by
  cases h with
  | call c hnew =>
    rcases State.getElem?_call hi with hi | rfl
    · exact .inl hi
    · cases hnew
  | _ =>
    simp only [State.getElem?_move] at hi
    grind [State.move]

theorem cases_returned (h : Step key s s')
    (hi : s'.callers[i]? = some (.invalidate baseUrl .returned)) :
    s.callers[i]? = some (.invalidate baseUrl .returned) ∨
      s.callers[i]? = some (.invalidate baseUrl .halfway) ∧
        s'.documents = s.documents.remove baseUrl := by
  cases h with
  | call c hnew =>
    rcases State.getElem?_call hi with hi | rfl
    · exact .inl hi
    · cases hnew
  | _ =>
    simp only [State.getElem?_move] at hi
    grind [State.move]

theorem cases_made (h : Step key s s') {m : Made Registry} (hm : m ∈ s'.registries.made) :
    m ∈ s.registries.made ∨ ∃ (f : Nat) (call : Call) (document : Nat) (d : Csdl.Document),
      call.baseUrl = m.key ∧ s.callers[f]? = some (.build call (.building m.cell document d)) ∧
        Registry.build call.service d call.augmentation = .ok m.value ∧
          s'.callers[f]? = some (.build call (.built m.cell m.value)) := by
  cases h with
  | @build _ f call cell document d r hi hr =>
    rcases List.mem_append.1 hm with hm | hm
    · exact .inl hm
    · cases List.mem_singleton.1 hm
      apply Or.inr
      refine ⟨f, call, document, d, rfl, hi, hr, ?_⟩
      rw [State.getElem?_move, if_pos rfl]
      exact congrArg (Option.map _) hi
  | _ => exact .inl hm

theorem mem_documents_made (h : Step key s s') {m : Made Csdl.Document}
    (hm : m ∈ s.documents.made) : m ∈ s'.documents.made := by
  cases h with
  | fetch _ _ _ => exact List.mem_append_left _ hm
  | _ => exact hm

end Step

/-- A cache over time. From one time to the next at most one caller takes a step. -/
structure History where
  state : Nat → State
  start : state 0 = {}
  step : ∀ t, state (t + 1) = state t ∨ ∃ key, Step key (state t) (state (t + 1))

namespace History

variable {t t' : Nat}

def Has (h : History) (t i : Nat) (c : Caller) : Prop := (h.state t).callers[i]? = some c

/-- A caller has not been there yet. -/
def Lacks (h : History) (t i : Nat) : Prop := (h.state t).callers[i]? = none

theorem reachable (h : History) (t : Nat) : Reachable (h.state t) := by
  induction t with
  | zero =>
    rw [h.start]
    exact .start
  | succ t ih =>
    rcases h.step t with hsame | ⟨key, hstep⟩
    · rw [hsame]
      exact ih
    · exact ih.step hstep

/-- What every step keeps lasts. -/
theorem lasts (h : History) {p : State → Prop} (hstep : ∀ key s s', Step key s s' → p s → p s')
    (hle : t ≤ t') (ht : p (h.state t)) : p (h.state t') := by
  induction hle with
  | refl => exact ht
  | step _ ih =>
    rcases h.step _ with hsame | ⟨key, hnext⟩
    · rw [hsame]
      exact ih
    · exact hstep key _ _ hnext ih

/-- What did not hold at first has a cause, and has held since then. -/
theorem exists_cause (h : History) {p : State → Prop} {r : State → State → Prop}
    (hstart : ¬ p {}) (hstep : ∀ key s s', Step key s s' → p s' → p s ∨ r s s')
    (ht : p (h.state t)) :
    ∃ u < t, r (h.state u) (h.state (u + 1)) ∧ ∀ v, u < v → v ≤ t → p (h.state v) := by
  induction t with
  | zero =>
    rw [h.start] at ht
    exact absurd ht hstart
  | succ t ih =>
    have hbefore : p (h.state t) ∨ r (h.state t) (h.state (t + 1)) := by
      rcases h.step t with hsame | ⟨key, hnext⟩
      · rw [hsame] at ht
        exact .inl ht
      · exact hstep key _ _ hnext ht
    rcases hbefore with hp | hr
    · obtain ⟨u, hu, hcause, hsince⟩ := ih hp
      refine ⟨u, Nat.lt_succ_of_lt hu, hcause, ?_⟩
      intro v huv hv
      rcases Nat.lt_or_eq_of_le hv with hv | rfl
      · exact hsince v huv (Nat.le_of_lt_succ hv)
      · exact ht
    · refine ⟨t, Nat.lt_succ_self t, hr, ?_⟩
      intro v hlt hle
      rw [Nat.le_antisymm hle hlt]
      exact ht

theorem lacks_of_le (h : History) (hle : t ≤ t') (hi : h.Lacks t' i) : h.Lacks t i := by
  have hlength : (h.state t).callers.length ≤ (h.state t').callers.length :=
    h.lasts (fun _ _ _ hstep h => Nat.le_trans h hstep.length_callers_le) hle (Nat.le_refl _)
  exact List.getElem?_eq_none (Nat.le_trans hlength (List.getElem?_eq_none_iff.1 hi))

theorem lt_of_lacks (h : History) {c : Caller} (hi : h.Lacks t i) (hi' : h.Has t' i c) :
    t < t' := by
  apply Nat.lt_of_not_le
  intro hle
  have hlacks := h.lacks_of_le hle hi
  rw [Lacks, hi'] at hlacks
  cases hlacks

theorem length_le (h : History) {α : Type} {layer : State → RecordedSlots α}
    (hlayer : ∀ key s s', Step key s s' → (layer s).Next (layer s')) (hle : t ≤ t') :
    (layer (h.state t)).slots.cells.length ≤ (layer (h.state t')).slots.cells.length := by
  apply h.lasts (p := fun s => _ ≤ (layer s).slots.cells.length) ?_ hle (Nat.le_refl _)
  intro key s s' hstep hlength
  exact Nat.le_trans hlength (hlayer key s s' hstep).length_le

/-- Once a key is removed from a layer, it stands for no cell that was there. -/
theorem renewed (h : History) {α : Type} {layer : State → RecordedSlots α}
    (hlayer : ∀ key s s', Step key s s' → (layer s).Next (layer s')) {b : Nat}
    (hremove : layer (h.state (b + 1)) = (layer (h.state b)).remove key)
    (hbefore : t ≤ b) (hafter : b < t') :
    (layer (h.state t')).Renewed (layer (h.state t)).slots.cells.length key := by
  apply h.lasts (p := fun s => (layer s).Renewed _ key) ?_ hafter
  · rw [hremove]
    exact ((layer (h.state b)).renewed_remove key).of_le (h.length_le hlayer hbefore)
  · intro key s s' hstep hrenewed
    exact hrenewed.next (hlayer key s s' hstep)

/-- A call that was not there at a time has taken its cell later. -/
theorem exists_take (h : History) {call : Call} {stage : Stage} {cell j : Nat}
    (hj : h.Lacks t j) (hj' : h.Has t' j (.build call stage)) (hcell : stage.cell? = some cell) :
    ∃ u ≥ t, cell = (h.state u).registries.cellOf call.baseUrl := by
  have hstart : ¬ ∃ stage, ({} : State).callers[j]? = some (.build call stage) ∧
      stage.cell? = some cell := by
    rintro ⟨_, hnone, _⟩
    cases hnone
  obtain ⟨u, hu, htake, hsince⟩ := h.exists_cause
    (p := fun s => ∃ stage, s.callers[j]? = some (.build call stage) ∧ stage.cell? = some cell)
    (r := fun s _ => cell = s.registries.cellOf call.baseUrl) hstart
    (fun _ _ _ hstep ⟨_, hi, hcell⟩ => hstep.cases_cell hi hcell) ⟨stage, hj', hcell⟩
  refine ⟨u, ?_, htake⟩
  apply Nat.le_of_not_lt
  intro hut
  obtain ⟨_, hearly, _⟩ := hsince t hut (Nat.le_of_lt (h.lt_of_lacks hj hj'))
  exact Nat.lt_irrefl t (h.lt_of_lacks hj hearly)

/-- A call that is to build from a document has taken its cell earlier. -/
theorem exists_takeDocument (h : History) {call : Call} {stage : Stage} {cell document : Nat}
    (hi : h.Has t i (.build call stage)) (horigin : stage.origin? = some (cell, document)) :
    ∃ u < t, h.Has u i (.build call (.started cell)) ∧
      h.Has (u + 1) i (.build call (.awaiting cell document)) ∧
        document = (h.state u).documents.cellOf call.baseUrl := by
  have hstart : ¬ ∃ stage, ({} : State).callers[i]? = some (.build call stage) ∧
      stage.origin? = some (cell, document) := by
    rintro ⟨_, hnone, _⟩
    cases hnone
  obtain ⟨u, hu, hcause, _⟩ := h.exists_cause
    (p := fun s => ∃ stage, s.callers[i]? = some (.build call stage) ∧
      stage.origin? = some (cell, document)) hstart
    (fun _ _ _ hstep ⟨_, hi, horigin⟩ => hstep.cases_origin hi horigin) ⟨stage, hi, horigin⟩
  exact ⟨u, hu, hcause⟩

/-- What was made for the cell of a registry was built from a document. -/
theorem exists_build (h : History) {m : Made Registry} (hm : m ∈ (h.state t).registries.made) :
    ∃ u < t, ∃ (f : Nat) (call : Call) (document : Nat) (d : Csdl.Document),
      call.baseUrl = m.key ∧ h.Has u f (.build call (.building m.cell document d)) ∧
        Registry.build call.service d call.augmentation = .ok m.value ∧
          h.Has (u + 1) f (.build call (.built m.cell m.value)) := by
  obtain ⟨u, hu, hcause, _⟩ := h.exists_cause
    (p := fun s => m ∈ s.registries.made) nofun (fun _ _ _ hstep => hstep.cases_made) hm
  exact ⟨u, hu, hcause⟩

/-- An invalidation removes the registry first and the document later. -/
theorem exists_removals (h : History) (hi : h.Has t i (.invalidate baseUrl .returned)) :
    ∃ a b, a < b ∧ b < t ∧ h.Has a i (.invalidate baseUrl .begun) ∧
      (h.state (a + 1)).registries = (h.state a).registries.remove baseUrl ∧
      (h.state (b + 1)).documents = (h.state b).documents.remove baseUrl ∧
      ∀ v, a < v → v ≤ b → h.Has v i (.invalidate baseUrl .halfway) := by
  obtain ⟨b, hbt, ⟨hhalfway, hdocuments⟩, _⟩ := h.exists_cause
    (p := fun s => s.callers[i]? = some (.invalidate baseUrl .returned)) nofun
    (fun _ _ _ hstep => hstep.cases_returned) hi
  obtain ⟨a, hab, ⟨hbegun, hregistries⟩, hbetween⟩ := h.exists_cause
    (p := fun s => s.callers[i]? = some (.invalidate baseUrl .halfway)) nofun
    (fun _ _ _ hstep => hstep.cases_halfway) hhalfway
  exact ⟨a, b, hab, hbt, hbegun, hregistries, hdocuments, hbetween⟩

end History

end Interleaving

end ODataGraph
