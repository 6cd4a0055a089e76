import ODataGraph.Proofs.Cache.Cell

/-!
What holds whenever callers use a cache at once. Registries and documents are two layers of cells,
and a step of a caller is one step in each of them or none; both keep the invariant of cells.
-/

namespace ODataGraph.Interleaving

/-- What a caller does about its cell of a registry. -/
def Caller.registryRole : Caller → Option (Role Registry)
  | .build call (.waiting cell) => some ⟨call.baseUrl, cell, .waits⟩
  | .build call (.built cell r) => some ⟨call.baseUrl, cell, .carries r⟩
  | .build call (.returned cell (.ok r)) => some ⟨call.baseUrl, cell, .has r⟩
  | .build call stage => stage.fills?.map (⟨call.baseUrl, ·, .fills⟩)
  | .get baseUrl (some (some (cell, r))) => some ⟨baseUrl, cell, .has r⟩
  | _ => none

/-- What a caller does about its cell of a document. -/
def Caller.documentRole : Caller → Option (Role Csdl.Document)
  | .build call (.awaiting _ document) => some ⟨call.baseUrl, document, .waits⟩
  | .build call (.fetching _ document) => some ⟨call.baseUrl, document, .fills⟩
  | .build call (.fetched _ document d) => some ⟨call.baseUrl, document, .carries d⟩
  | .build call (.building _ document d) => some ⟨call.baseUrl, document, .has d⟩
  | _ => none

namespace Caller

def removes? : Caller → Option String
  | invalidate baseUrl _ => some baseUrl
  | _ => none

theorem fills?_of_registryRole {c : Caller} {r : Role Registry} (h : c.registryRole = some r)
    (hr : r.act.isFilling) : c.fills? = some r.cell := by
  cases c with
  | build call stage =>
    cases stage with
    | returned cell result =>
      cases result with
      | ok _ =>
        cases h
        cases hr
      | error _ => cases h
    | begun => cases h
    | waiting cell =>
      cases h
      cases hr
    | _ =>
      cases h
      rfl
  | get baseUrl found =>
    rcases found with _ | _ | ⟨cell, r⟩
    · cases h
    · cases h
    · cases h
      cases hr
  | invalidate baseUrl stage => cases h

theorem fetches?_of_documentRole {c : Caller} {r : Role Csdl.Document}
    (h : c.documentRole = some r) (hr : r.act.isFilling) : c.fetches? = some r.cell := by
  cases c with
  | build call stage =>
    cases stage with
    | fetching cell document =>
      cases h
      rfl
    | fetched cell document d =>
      cases h
      rfl
    | _ =>
      cases h
      try cases hr
  | get baseUrl found => cases h
  | invalidate baseUrl stage => cases h

/-- Who has only called has no cell. -/
theorem roles_of_isNew {c : Caller} (h : c.isNew) :
    c.documentRole = none ∧ c.registryRole = none := by
  cases c with
  | build call stage => cases stage <;> first | exact ⟨rfl, rfl⟩ | cases h
  | get baseUrl found => cases found <;> first | exact ⟨rfl, rfl⟩ | cases h
  | invalidate baseUrl stage => exact ⟨rfl, rfl⟩

end Caller

namespace State

variable {α : Type} {s s' : State} {i : Nat} {c c' : Caller} {key : String}

def roles (role : Caller → Option (Role α)) (s : State) (i : Nat) : Option (Role α) :=
  s.callers[i]?.bind role

theorem roles_move {role : Caller → Option (Role α)} (h : s.callers[i]? = some c)
    (c' : Caller) : (s.move i c').roles role = Function.update (s.roles role) i (role c') := by
  obtain ⟨hlt, _⟩ := List.getElem?_eq_some_iff.1 h
  funext j
  rw [roles, move, List.getElem?_set, Function.update_apply]
  by_cases hj : j = i
  · rw [if_pos hj.symm, if_pos hlt, if_pos hj]
    rfl
  · rw [if_neg (Ne.symm hj), if_neg hj]
    rfl

theorem roles_of {role : Caller → Option (Role α)} (h : s.callers[i]? = some c) :
    s.roles role i = role c := by
  rw [roles, h, Option.bind_some]

theorem update_roles (role : Caller → Option (Role α)) (h : s.callers[i]? = some c)
    (hrole : role c' = role c) : Function.update (s.roles role) i (role c') = s.roles role := by
  have hi : role c = s.roles role i := (roles_of h).symm
  rw [hrole, hi, Function.update_eq_self]

theorem roles_call {role : Caller → Option (Role α)} (hrole : role c = none) :
    { s with callers := s.callers ++ [c] }.roles role = s.roles role := by
  funext j
  rw [roles, roles, List.getElem?_append]
  split
  · rfl
  · rename_i hj
    rw [List.getElem?_eq_none (Nat.le_of_not_lt hj), Option.bind_none]
    rcases Nat.eq_zero_or_pos (j - s.callers.length) with hzero | hpos
    · rw [hzero]
      exact hrole
    · rw [List.getElem?_eq_none (by simpa using Nat.succ_le_of_lt hpos), Option.bind_none]

/-- Both layers of cells are sound, and keys are removed only by calls for that. -/
structure Sound (s : State) : Prop where
  documents : ∃ owner, s.documents.Sound owner (s.roles Caller.documentRole)
  registries : ∃ owner, s.registries.Sound owner (s.roles Caller.registryRole)
  removed : ∀ key, key ∈ s.documents.removed ∨ key ∈ s.registries.removed →
    ∃ c ∈ s.callers, c.removes? = some key

theorem sound_start : ({} : State).Sound where
  documents := ⟨fun _ => "", RecordedSlots.sound_empty _⟩
  registries := ⟨fun _ => "", RecordedSlots.sound_empty _⟩
  removed key h := by simp at h

theorem exists_removes_move (h : s.callers[i]? = some c) (hsame : c'.removes? = c.removes?)
    (hkey : ∃ c ∈ s.callers, c.removes? = some key) :
    ∃ c ∈ (s.move i c').callers, c.removes? = some key := by
  obtain ⟨b, hb, hremoves⟩ := hkey
  obtain ⟨j, hj⟩ := List.mem_iff_getElem?.1 hb
  obtain ⟨hlt, _⟩ := List.getElem?_eq_some_iff.1 h
  by_cases hji : i = j
  · rw [← hji, h] at hj
    cases hj
    exact ⟨c', List.mem_iff_getElem?.2 ⟨i, by rw [move, List.getElem?_set_self hlt]⟩,
      hsame.trans hremoves⟩
  · exact ⟨b, List.mem_iff_getElem?.2 ⟨j, by rw [move, List.getElem?_set_ne hji, hj]⟩, hremoves⟩

/-- A caller goes on, with the cells of both layers sound for its new roles. -/
theorem Sound.move (h : s.Sound) (hc : s.callers[i]? = some c)
    {documents : RecordedSlots Csdl.Document} {registries : RecordedSlots Registry}
    (hdocuments : ∃ owner, documents.Sound owner
      (Function.update (s.roles Caller.documentRole) i c'.documentRole))
    (hregistries : ∃ owner, registries.Sound owner
      (Function.update (s.roles Caller.registryRole) i c'.registryRole))
    (hsame : c'.removes? = c.removes? := by rfl)
    (hremoved : ∀ key, key ∈ documents.removed ∨ key ∈ registries.removed →
      (key ∈ s.documents.removed ∨ key ∈ s.registries.removed) ∨ c.removes? = some key := by
        exact fun _ => Or.inl) :
    (State.move { documents, registries, callers := s.callers } i c').Sound := by
  have hroles : ∀ {α : Type} (role : Caller → Option (Role α)),
      (State.move { documents, registries, callers := s.callers } i c').roles role =
        Function.update (s.roles role) i (role c') := fun _ => roles_move hc c'
  constructor
  · rw [hroles]
    exact hdocuments
  · rw [hroles]
    exact hregistries
  · intro key hkey
    apply exists_removes_move hc hsame
    rcases hremoved key hkey with hkey | hkey
    · exact h.removed key hkey
    · exact ⟨c, List.mem_of_getElem? hc, hkey⟩

/-- In a layer where its role stays the same, a caller leaves everything as it is. -/
theorem exists_sound_of_role {role : Caller → Option (Role α)} {x : RecordedSlots α}
    (h : ∃ owner, x.Sound owner (s.roles role)) (hc : s.callers[i]? = some c)
    (hrole : role c' = role c) :
    ∃ owner, x.Sound owner (Function.update (s.roles role) i (role c')) := by
  rw [update_roles role hc hrole]
  exact h

theorem exists_sound_remove {role : Caller → Option (Role α)} {x : RecordedSlots α}
    (h : ∃ owner, x.Sound owner (s.roles role)) (hc : s.callers[i]? = some c)
    (hrole : role c' = role c) :
    ∃ owner, (x.remove key).Sound owner (Function.update (s.roles role) i (role c')) := by
  obtain ⟨owner, h⟩ := exists_sound_of_role h hc hrole
  exact ⟨owner, h.remove key⟩

theorem ne_carries {role : Caller → Option (Role α)} (hc : s.callers[i]? = some c)
    (hrole : ∀ r a, role c = some r → r.act ≠ .carries a) :
    ∀ r a, s.roles role i = some r → r.act ≠ .carries a := by
  intro r a hr
  exact hrole r a ((roles_of hc).symm.trans hr)

/-- A cell that no caller is to fill is not the one of a role that fills. -/
theorem ne_cell_of_free {role : Caller → Option (Role α)} {fills? : Caller → Option Nat}
    (hrole : ∀ {c r}, role c = some r → r.act.isFilling → fills? c = some r.cell) {cell : Nat}
    (hfree : ∀ c ∈ s.callers, fills? c ≠ some cell) (j : Nat) (r : Role α)
    (hj : s.roles role j = some r) (hr : r.act.isFilling) : r.cell ≠ cell := by
  rintro rfl
  obtain ⟨c, hc, hj⟩ := Option.bind_eq_some_iff.1 hj
  exact hfree c (List.mem_of_getElem? hc) (hrole hj hr)

theorem find?_eq_some_iff {p : Nat × Registry} : s.find? key = some p ↔
    s.registries.slots.current.get? key = some p.1 ∧
      s.registries.slots.content? p.1 = some p.2 := by
  simp only [find?, Option.bind_eq_bind, Option.bind_eq_some_iff, Option.pure_def,
    Option.some.injEq]
  constructor
  · rintro ⟨cell, hcell, r, hr, rfl⟩
    exact ⟨hcell, hr⟩
  · rintro ⟨hcell, hr⟩
    exact ⟨p.1, hcell, p.2, hr, rfl⟩

theorem Sound.sound_of_step (h : s.Sound) (hstep : Step key s s') : s'.Sound := by
  obtain ⟨owner, hd⟩ := h.documents
  obtain ⟨owner', hr⟩ := h.registries
  cases hstep with
  | call c hnew =>
    have hroles := Caller.roles_of_isNew hnew
    constructor
    · rw [roles_call hroles.1]
      exact h.documents
    · rw [roles_call hroles.2]
      exact h.registries
    · intro key hkey
      obtain ⟨b, hb, hremoves⟩ := h.removed key hkey
      exact ⟨b, List.mem_append_left _ hb, hremoves⟩
  | @take _ i call hc =>
    exact h.move hc (exists_sound_of_role h.documents hc rfl) (hr.take (roles_of hc) call.baseUrl)
  | @find _ i call cell r hc hcontent =>
    have howner := (hr.seats.placed i _ (roles_of hc)).2
    refine h.move hc (exists_sound_of_role h.documents hc rfl)
      ⟨owner', hr.serve (ne_carries hc ?_) hcontent howner⟩
    rintro _ a ⟨⟩
    nofun
  | @start _ i call cell hc hempty hfree =>
    have hfree := ne_cell_of_free Caller.fills?_of_registryRole hfree
    exact h.move hc (exists_sound_of_role h.documents hc rfl)
      ⟨owner', hr.start (roles_of hc) hempty hfree⟩
  | @takeDocument _ i call cell hc =>
    exact h.move hc (hd.take (roles_of hc) call.baseUrl) (exists_sound_of_role h.registries hc rfl)
  | @findDocument _ i call cell document d hc hcontent =>
    have howner := (hd.seats.placed i _ (roles_of hc)).2
    refine h.move hc ⟨owner, hd.serve (ne_carries hc ?_) hcontent howner⟩
      (exists_sound_of_role h.registries hc rfl)
    rintro _ a ⟨⟩
    nofun
  | @startFetch _ i call cell document hc hempty hfree =>
    have hfree := ne_cell_of_free Caller.fetches?_of_documentRole hfree
    exact h.move hc ⟨owner, hd.start (roles_of hc) hempty hfree⟩
      (exists_sound_of_role h.registries hc rfl)
  | @fetch _ i call cell document d hc client _ =>
    exact h.move hc ⟨owner, hd.make (roles_of hc) d⟩ (exists_sound_of_role h.registries hc rfl)
  | @failFetch _ i call cell document error hc client _ =>
    refine h.move hc ⟨owner, hd.quit (ne_carries hc ?_)⟩ (exists_sound_of_role h.registries hc rfl)
    rintro _ a ⟨⟩
    nofun
  | @fillDocument _ i call cell document d hc =>
    exact h.move hc ⟨owner, hd.fill (roles_of hc)⟩ (exists_sound_of_role h.registries hc rfl)
  | @build _ i call cell document d r hc _ =>
    refine h.move hc ⟨owner, hd.quit (ne_carries hc ?_)⟩ ⟨owner', hr.make (roles_of hc) r⟩
    rintro _ a ⟨⟩
    nofun
  | @failBuild _ i call cell document d error hc _ =>
    refine h.move hc ⟨owner, hd.quit (ne_carries hc ?_)⟩ (exists_sound_of_role h.registries hc rfl)
    rintro _ a ⟨⟩
    nofun
  | @fill _ i call cell r hc =>
    exact h.move hc (exists_sound_of_role h.documents hc rfl) ⟨owner', hr.fill (roles_of hc)⟩
  | @giveUp _ i call cell error hc =>
    refine h.move hc (exists_sound_of_role h.documents hc rfl) ⟨owner', hr.quit (ne_carries hc ?_)⟩
    rintro _ a ⟨⟩
    nofun
  | @get _ i _ hc =>
    generalize hfind : s.find? key = found
    cases found with
    | none =>
      exact h.move hc (exists_sound_of_role h.documents hc rfl)
        (exists_sound_of_role h.registries hc rfl)
    | some found =>
      obtain ⟨hcurrent, hcontent⟩ := find?_eq_some_iff.1 hfind
      have howner := (hr.current key _ hcurrent).2
      refine h.move hc (exists_sound_of_role h.documents hc rfl)
        ⟨owner', hr.serve (ne_carries hc ?_) hcontent howner⟩
      rintro _ a ⟨⟩
  | @removeRegistry _ i _ hc =>
    refine h.move hc (exists_sound_of_role h.documents hc rfl)
      (exists_sound_remove h.registries hc rfl) rfl ?_
    rintro k (hk | hk)
    · exact .inl (.inl hk)
    · rcases RecordedSlots.mem_removed_remove.1 hk with hk | rfl
      · exact .inl (.inr hk)
      · exact .inr rfl
  | @removeDocument _ i _ hc =>
    refine h.move hc (exists_sound_remove h.documents hc rfl)
      (exists_sound_of_role h.registries hc rfl) rfl ?_
    rintro k (hk | hk)
    · rcases RecordedSlots.mem_removed_remove.1 hk with hk | rfl
      · exact .inl (.inl hk)
      · exact .inr rfl
    · exact .inl (.inr hk)

end State

theorem Reachable.sound {s : State} (h : Reachable s) : s.Sound := by
  induction h with
  | start => exact State.sound_start
  | step _ hstep ih => exact ih.sound_of_step hstep

end ODataGraph.Interleaving
