import Mathlib.Data.List.Nodup
import Mathlib.Logic.Function.Basic
import ODataGraph.Cache.Interleaving

/-!
What holds of cells that several callers fill. Only one caller at a time is to fill a cell, and only
an empty one, so that no cell is filled twice, and whatever is made for a cell comes into it.
-/

namespace ODataGraph

/-- What a caller does about its cell. -/
inductive Act (α : Type u) where
  | waits
  | fills
  /-- Has made what is to fill the cell. -/
  | carries (a : α)
  | has (a : α)

def Act.isFilling {α : Type u} : Act α → Bool
  | .fills | .carries _ => true
  | _ => false

/-- A caller at the cell that it took for a key. -/
structure Role (α : Type u) where
  key : String
  cell : Nat
  act : Act α

theorem cases_update {α : Type u} {roles : Nat → Option (Role α)} {i j : Nat}
    {role : Option (Role α)} {r : Role α} (h : Function.update roles i role j = some r) :
    j = i ∧ role = some r ∨ j ≠ i ∧ roles j = some r := by
  by_cases hj : j = i
  · rw [hj, Function.update_self] at h
    exact .inl ⟨hj, h⟩
  · rw [Function.update_of_ne hj] at h
    exact .inr ⟨hj, h⟩

namespace Slots

variable {α : Type u} {s : Slots α} {owner : Nat → String} {roles : Nat → Option (Role α)}

/-- Callers are at cells of their keys. No two of them are to fill one cell, and only an empty one
is to be filled. -/
structure Seats (owner : Nat → String) (s : Slots α) (roles : Nat → Option (Role α)) : Prop where
  placed : ∀ i r, roles i = some r → r.cell < s.cells.length ∧ owner r.cell = r.key
  alone : ∀ i j r r', roles i = some r → roles j = some r' → r.act.isFilling → r'.act.isFilling →
    r.cell = r'.cell → i = j
  empty : ∀ i r, roles i = some r → r.act.isFilling → s.content? r.cell = none
  got : ∀ i r a, roles i = some r → r.act = .has a → s.content? r.cell = some a

namespace Seats

/-- A caller takes another role, at a cell where it disturbs nobody. -/
theorem update (h : s.Seats owner roles) {i : Nat} {role : Option (Role α)}
    (hplaced : ∀ r ∈ role, r.cell < s.cells.length ∧ owner r.cell = r.key)
    (hfills : ∀ r ∈ role, r.act.isFilling → s.content? r.cell = none ∧
      ∀ j ≠ i, ∀ r', roles j = some r' → r'.act.isFilling → r.cell ≠ r'.cell)
    (hgot : ∀ r ∈ role, ∀ a, r.act = .has a → s.content? r.cell = some a) :
    s.Seats owner (Function.update roles i role) where
  placed j r hj := by
    rcases cases_update hj with ⟨_, hr⟩ | ⟨_, hr⟩
    · exact hplaced r hr
    · exact h.placed j r hr
  alone j k r r' hj hk hr hr' hcell := by
    rcases cases_update hj with ⟨hji, hrole⟩ | ⟨hji, hj⟩
    · rcases cases_update hk with ⟨hki, _⟩ | ⟨hki, hk⟩
      · exact hji.trans hki.symm
      · exact absurd hcell ((hfills r hrole hr).2 k hki r' hk hr')
    · rcases cases_update hk with ⟨hki, hrole⟩ | ⟨_, hk⟩
      · exact absurd hcell.symm ((hfills r' hrole hr').2 j hji r hj hr)
      · exact h.alone j k r r' hj hk hr hr' hcell
  empty j r hj hr := by
    rcases cases_update hj with ⟨_, hrole⟩ | ⟨_, hj⟩
    · exact (hfills r hrole hr).1
    · exact h.empty j r hj hr
  got j r a hj hr := by
    rcases cases_update hj with ⟨_, hrole⟩ | ⟨_, hj⟩
    · exact hgot r hrole a hr
    · exact h.got j r a hj hr

/-- Nobody else is to fill the cell that a caller fills. -/
theorem ne_of_fills (h : s.Seats owner roles) {i : Nat} {r : Role α} (hi : roles i = some r)
    (hr : r.act.isFilling) :
    ∀ j ≠ i, ∀ r', roles j = some r' → r'.act.isFilling → r.cell ≠ r'.cell :=
  fun j hj r' hr' hfills hcell => hj (h.alone j i r' r hr' hi hfills hr hcell.symm)

/-- What is in a cell stays there. -/
theorem content?_fill_of_some (h : s.Seats owner roles) {i : Nat} {r : Role α}
    (hi : roles i = some r) (hr : r.act.isFilling) {a b : α} {cell : Nat}
    (hc : s.content? cell = some b) : (s.fill r.cell a).content? cell = some b := by
  have hne : r.cell ≠ cell := by
    rintro rfl
    cases (h.empty i r hi hr).symm.trans hc
  rw [← hc]
  exact s.content?_fill_of_ne hne a

/-- A caller fills its cell, and has got what is in it then. -/
theorem fill (h : s.Seats owner roles) {i : Nat} {r : Role α} (hi : roles i = some r)
    (hr : r.act.isFilling) (a : α) :
    (s.fill r.cell a).Seats owner (Function.update roles i (some ⟨r.key, r.cell, .has a⟩)) where
  placed j r' hj := by
    have hlength : (s.fill r.cell a).cells.length = s.cells.length := List.length_set ..
    rw [hlength]
    rcases cases_update hj with ⟨_, hrole⟩ | ⟨_, hj⟩
    · cases hrole
      exact h.placed i r hi
    · exact h.placed j r' hj
  alone j k r' r'' hj hk hr' hr'' hcell := by
    rcases cases_update hj with ⟨_, hrole⟩ | ⟨_, hj⟩
    · cases hrole
      cases hr'
    rcases cases_update hk with ⟨_, hrole⟩ | ⟨_, hk⟩
    · cases hrole
      cases hr''
    exact h.alone j k r' r'' hj hk hr' hr'' hcell
  empty j r' hj hr' := by
    rcases cases_update hj with ⟨_, hrole⟩ | ⟨hne, hj⟩
    · cases hrole
      cases hr'
    · rw [s.content?_fill_of_ne (h.ne_of_fills hi hr j hne r' hj hr')]
      exact h.empty j r' hj hr'
  got j r' b hj hr' := by
    rcases cases_update hj with ⟨_, hrole⟩ | ⟨_, hj⟩
    · cases hrole
      cases hr'
      exact s.content?_fill (h.placed i r hi).1 a
    · exact h.content?_fill_of_some hi hr (h.got j r' b hj hr')

end Seats

end Slots

namespace RecordedSlots

variable {α : Type u} {x : RecordedSlots α} {owner : Nat → String} {roles : Nat → Option (Role α)}
variable {key : String} {cell i : Nat} {a : α}

/-- The invariant of cells. Every cell belongs to the key that it was made for, also when it does
not stand for it any more. -/
structure Sound (owner : Nat → String) (x : RecordedSlots α) (roles : Nat → Option (Role α)) :
    Prop where
  seats : x.slots.Seats owner roles
  current : ∀ key cell, x.slots.current.get? key = some cell →
    cell < x.slots.cells.length ∧ owner cell = key
  /-- As long as its key is not removed, it stands for the only cell that belongs to it. -/
  kept : ∀ cell, cell < x.slots.cells.length → owner cell ∉ x.removed →
    x.slots.current.get? (owner cell) = some cell
  made_owner : ∀ m ∈ x.made, m.cell < x.slots.cells.length ∧ owner m.cell = m.key
  made_nodup : (x.made.map (·.cell)).Nodup
  made_of_content : ∀ cell a, x.slots.content? cell = some a → ⟨owner cell, cell, a⟩ ∈ x.made
  /-- What was made is in its cell, or will be. -/
  made_comes : ∀ m ∈ x.made, x.slots.content? m.cell = some m.value ∨
    ∃ i, roles i = some ⟨m.key, m.cell, .carries m.value⟩
  carried : ∀ i r a, roles i = some r → r.act = .carries a → ⟨r.key, r.cell, a⟩ ∈ x.made
  filled_nodup : x.filled.Nodup
  filled_iff : ∀ cell, cell ∈ x.filled ↔ ∃ a, x.slots.content? cell = some a

theorem mem_removed_remove {key' : String} :
    key' ∈ (x.remove key).removed ↔ key' ∈ x.removed ∨ key' = key := by
  rw [remove, List.mem_append, List.mem_singleton]

theorem sound_empty (owner : Nat → String) : Sound owner ({} : RecordedSlots α) fun _ => none where
  seats := ⟨nofun, nofun, nofun, nofun⟩
  current := nofun
  kept cell h := absurd h (Nat.not_lt_zero cell)
  made_owner := nofun
  made_nodup := List.nodup_nil
  made_of_content := nofun
  made_comes := nofun
  carried := nofun
  filled_nodup := List.nodup_nil
  filled_iff cell := by simp [Slots.content?]

namespace Sound

theorem lt_of_content (h : x.Sound owner roles) (hc : x.slots.content? cell = some a) :
    cell < x.slots.cells.length :=
  (h.made_owner _ (h.made_of_content cell a hc)).1

/-- A caller that carries nothing takes a role in which it carries nothing. -/
theorem play (h : x.Sound owner roles) (hi : ∀ r a, roles i = some r → r.act ≠ .carries a)
    {role : Option (Role α)} (hseats : x.slots.Seats owner (Function.update roles i role))
    (hrole : ∀ r ∈ role, ∀ a, r.act ≠ .carries a) :
    x.Sound owner (Function.update roles i role) where
  seats := hseats
  current := h.current
  kept := h.kept
  made_owner := h.made_owner
  made_nodup := h.made_nodup
  made_of_content := h.made_of_content
  made_comes m hm := by
    rcases h.made_comes m hm with hc | ⟨j, hj⟩
    · exact .inl hc
    · have hne : j ≠ i := fun heq => hi _ m.value (heq ▸ hj) rfl
      exact .inr ⟨j, (Function.update_of_ne hne _ _).trans hj⟩
  carried j r a hj hr := by
    rcases cases_update hj with ⟨_, hmem⟩ | ⟨_, hj⟩
    · exact absurd hr (hrole r hmem a)
    · exact h.carried j r a hj hr
  filled_nodup := h.filled_nodup
  filled_iff := h.filled_iff

/-- A caller that carries nothing leaves its cell. -/
theorem quit (h : x.Sound owner roles) (hi : ∀ r a, roles i = some r → r.act ≠ .carries a) :
    x.Sound owner (Function.update roles i none) :=
  h.play hi (h.seats.update nofun nofun nofun) nofun

/-- A caller waits at the cell that its key stands for. -/
theorem wait (h : x.Sound owner roles) (hi : roles i = none)
    (hcell : x.slots.current.get? key = some cell) :
    x.Sound owner (Function.update roles i (some ⟨key, cell, .waits⟩)) := by
  apply h.play
  · intro r a hr
    cases hi.symm.trans hr
  · apply h.seats.update
    · rintro _ ⟨⟩
      exact h.current key cell hcell
    · rintro _ ⟨⟩ hfills
      cases hfills
    · rintro _ ⟨⟩ a ha
      cases ha
  · rintro _ ⟨⟩ a ha
    cases ha

/-- A caller gets what is in a cell of its key. -/
theorem serve (h : x.Sound owner roles) (hi : ∀ r a, roles i = some r → r.act ≠ .carries a)
    (hc : x.slots.content? cell = some a) (ho : owner cell = key) :
    x.Sound owner (Function.update roles i (some ⟨key, cell, .has a⟩)) := by
  apply h.play hi
  · apply h.seats.update
    · rintro _ ⟨⟩
      exact ⟨h.lt_of_content hc, ho⟩
    · rintro _ ⟨⟩ hfills
      cases hfills
    · rintro _ ⟨⟩ b hb
      cases hb
      exact hc
  · rintro _ ⟨⟩ b hb
    cases hb

/-- A caller that waits at an empty cell, which nobody fills, is to fill it. -/
theorem start (h : x.Sound owner roles) (hi : roles i = some ⟨key, cell, .waits⟩)
    (hempty : x.slots.content? cell = none)
    (hfree : ∀ j r, roles j = some r → r.act.isFilling → r.cell ≠ cell) :
    x.Sound owner (Function.update roles i (some ⟨key, cell, .fills⟩)) := by
  apply h.play
  · intro r a hr
    cases hi.symm.trans hr
    nofun
  · apply h.seats.update
    · rintro _ ⟨⟩
      exact h.seats.placed i ⟨key, cell, .waits⟩ hi
    · rintro _ ⟨⟩ _
      exact ⟨hempty, fun j _ r hj hr => (hfree j r hj hr).symm⟩
    · rintro _ ⟨⟩ b hb
      cases hb
  · rintro _ ⟨⟩ b hb
    cases hb

/-- A new cell belongs to the key that it was made for. -/
theorem take_new (h : x.Sound owner roles) (hnew : x.slots.current.get? key = none)
    (hcell : x.cellOf key = x.slots.cells.length)
    (hcells : (x.take key).slots.cells = x.slots.cells ++ [none]) :
    (x.take key).Sound (Function.update owner x.slots.cells.length key) roles := by
  have hlength : (x.take key).slots.cells.length = x.slots.cells.length + 1 := by
    rw [hcells, List.length_append]
    rfl
  have hcontent : ∀ cell, (x.take key).slots.content? cell = x.slots.content? cell :=
    x.slots.content?_take key
  have hcurrent : ∀ k, (x.take key).slots.current.get? k =
      if k = key then some x.slots.cells.length else x.slots.current.get? k := by
    intro k
    rw [← hcell]
    exact x.slots.get?_current_take key k
  have howner : ∀ cell, cell < x.slots.cells.length →
      Function.update owner x.slots.cells.length key cell = owner cell :=
    fun cell hlt => Function.update_of_ne (Nat.ne_of_lt hlt) _ _
  have hbelow : ∀ cell k, cell < x.slots.cells.length ∧ owner cell = k →
      cell < (x.take key).slots.cells.length ∧
        Function.update owner x.slots.cells.length key cell = k := by
    intro cell k hk
    rw [hlength, howner cell hk.1]
    exact ⟨Nat.lt_succ_of_lt hk.1, hk.2⟩
  constructor
  case current =>
    intro k cell hk
    rw [hcurrent] at hk
    split at hk
    · rename_i heq
      cases hk
      rw [hlength, Function.update_self]
      exact ⟨Nat.lt_succ_self _, heq.symm⟩
    · exact hbelow cell k (h.current k cell hk)
  case seats =>
    constructor
    · exact fun i r hr => hbelow r.cell r.key (h.seats.placed i r hr)
    · exact h.seats.alone
    · exact fun i r hr hfills => (hcontent r.cell).trans (h.seats.empty i r hr hfills)
    · exact fun i r a hr ha => (hcontent r.cell).trans (h.seats.got i r a hr ha)
  case carried => exact h.carried
  case made_owner => exact fun m hm => hbelow m.cell m.key (h.made_owner m hm)
  case made_nodup => exact h.made_nodup
  case made_comes =>
    intro m hm
    rw [hcontent]
    exact h.made_comes m hm
  case made_of_content =>
    intro cell a hc
    rw [hcontent] at hc
    rw [howner cell (h.lt_of_content hc)]
    exact h.made_of_content cell a hc
  case filled_nodup => exact h.filled_nodup
  case filled_iff =>
    intro cell
    rw [hcontent]
    exact h.filled_iff cell
  case kept =>
    intro cell hlt hremoved
    rw [hlength] at hlt
    rw [hcurrent]
    rcases Nat.lt_succ_iff_lt_or_eq.1 hlt with hlt | rfl
    · rw [howner cell hlt] at hremoved ⊢
      have hkept := h.kept cell hlt hremoved
      have hne : owner cell ≠ key := by
        intro heq
        rw [heq, hnew] at hkept
        cases hkept
      rw [if_neg hne]
      exact hkept
    · rw [Function.update_self, if_pos rfl]

/-- A caller takes the cell of a key. -/
theorem take (h : x.Sound owner roles) (hi : roles i = none) (key : String) :
    ∃ owner', (x.take key).Sound owner'
      (Function.update roles i (some ⟨key, x.cellOf key, .waits⟩)) := by
  have hcurrent : (x.take key).slots.current.get? key = some (x.cellOf key) := by
    rw [RecordedSlots.take, x.slots.get?_current_take, if_pos rfl]
    rfl
  rcases x.slots.cases_take key with ⟨hsame, _⟩ | ⟨hnew, hcell, hcells⟩
  · have hx : x.take key = x := by
      rw [RecordedSlots.take, hsame]
    exact ⟨owner, wait (hx.symm ▸ h) hi hcurrent⟩
  · exact ⟨_, (h.take_new hnew hcell hcells).wait hi hcurrent⟩

/-- Nothing was made for a cell that a caller has only begun to fill. -/
theorem cell_ne_of_fills (h : x.Sound owner roles) (hi : roles i = some ⟨key, cell, .fills⟩) :
    ∀ m ∈ x.made, m.cell ≠ cell := by
  intro m hm heq
  rcases h.made_comes m hm with hc | ⟨j, hj⟩
  · rw [heq, h.seats.empty i _ hi rfl] at hc
    cases hc
  · obtain rfl := h.seats.alone i j _ _ hi hj rfl rfl heq.symm
    cases hi.symm.trans hj

/-- What a caller makes for its cell is the only thing that was ever made for it. -/
theorem make (h : x.Sound owner roles) (hi : roles i = some ⟨key, cell, .fills⟩) (a : α) :
    (x.make key cell a).Sound owner
      (Function.update roles i (some ⟨key, cell, .carries a⟩)) := by
  have hplaced := h.seats.placed i _ hi
  have hempty := h.seats.empty i _ hi rfl
  have halone : ∀ j ≠ i, ∀ r, roles j = some r → r.act.isFilling → cell ≠ r.cell :=
    h.seats.ne_of_fills hi rfl
  constructor
  case seats =>
    apply h.seats.update
    · rintro _ ⟨⟩
      exact hplaced
    · rintro _ ⟨⟩ _
      exact ⟨hempty, halone⟩
    · rintro _ ⟨⟩ b hb
      cases hb
  case current => exact h.current
  case kept => exact h.kept
  case made_owner =>
    intro m hm
    rcases List.mem_append.1 hm with hm | hm
    · exact h.made_owner m hm
    · rw [List.mem_singleton.1 hm]
      exact hplaced
  case made_nodup =>
    rw [RecordedSlots.make, List.map_append, List.nodup_append']
    refine ⟨h.made_nodup, List.nodup_singleton _, ?_⟩
    rw [List.map_singleton, List.disjoint_singleton]
    intro hmem
    obtain ⟨m, hm, heq⟩ := List.mem_map.1 hmem
    exact h.cell_ne_of_fills hi m hm heq
  case made_of_content =>
    exact fun cell' b hc => List.mem_append_left _ (h.made_of_content cell' b hc)
  case made_comes =>
    intro m hm
    rcases List.mem_append.1 hm with hm | hm
    · rcases h.made_comes m hm with hc | ⟨j, hj⟩
      · exact .inl hc
      · have hne : j ≠ i := by
          rintro rfl
          cases hi.symm.trans hj
        exact .inr ⟨j, (Function.update_of_ne hne _ _).trans hj⟩
    · rw [List.mem_singleton.1 hm]
      exact .inr ⟨i, Function.update_self _ _ _⟩
  case carried =>
    intro j r b hj hr
    rcases cases_update hj with ⟨_, hrole⟩ | ⟨_, hj⟩
    · cases hrole
      cases hr
      exact List.mem_append_right _ (List.mem_singleton_self _)
    · exact List.mem_append_left _ (h.carried j r b hj hr)
  case filled_nodup => exact h.filled_nodup
  case filled_iff => exact h.filled_iff

/-- A caller fills its cell with what it made. -/
theorem fill (h : x.Sound owner roles) (hi : roles i = some ⟨key, cell, .carries a⟩) :
    (x.fill cell a).Sound owner (Function.update roles i (some ⟨key, cell, .has a⟩)) := by
  have hplaced := h.seats.placed i _ hi
  have hempty := h.seats.empty i _ hi rfl
  have hlength : (x.fill cell a).slots.cells.length = x.slots.cells.length := List.length_set ..
  have hself : (x.fill cell a).slots.content? cell = some a :=
    x.slots.content?_fill hplaced.1 a
  have hother : ∀ other, other ≠ cell →
      (x.fill cell a).slots.content? other = x.slots.content? other :=
    fun other hne => x.slots.content?_fill_of_ne hne.symm a
  have hstays : ∀ other b, x.slots.content? other = some b →
      (x.fill cell a).slots.content? other = some b :=
    fun _ _ hb => h.seats.content?_fill_of_some hi rfl hb
  constructor
  case seats => exact h.seats.fill hi rfl a
  case current =>
    rw [hlength]
    exact h.current
  case kept =>
    rw [hlength]
    exact h.kept
  case made_owner =>
    rw [hlength]
    exact h.made_owner
  case made_nodup => exact h.made_nodup
  case made_of_content =>
    intro other b hb
    by_cases heq : other = cell
    · rw [heq, hself] at hb
      cases hb
      rw [heq, hplaced.2]
      exact h.carried i _ a hi rfl
    · rw [hother other heq] at hb
      exact h.made_of_content other b hb
  case made_comes =>
    intro m hm
    rcases h.made_comes m hm with hc | ⟨j, hj⟩
    · exact .inl (hstays m.cell m.value hc)
    · by_cases hji : j = i
      · rw [hji, hi] at hj
        cases hj
        exact .inl hself
      · exact .inr ⟨j, (Function.update_of_ne hji _ _).trans hj⟩
  case carried =>
    intro j r b hj hr
    rcases cases_update hj with ⟨_, hrole⟩ | ⟨_, hj⟩
    · cases hrole
      cases hr
    · exact h.carried j r b hj hr
  case filled_nodup =>
    have hnew : cell ∉ x.filled := by
      rw [h.filled_iff]
      rintro ⟨b, hb⟩
      cases hempty.symm.trans hb
    rw [RecordedSlots.fill, List.nodup_append']
    exact ⟨h.filled_nodup, List.nodup_singleton _, List.disjoint_singleton.2 hnew⟩
  case filled_iff =>
    intro other
    rw [RecordedSlots.fill, List.mem_append, List.mem_singleton, h.filled_iff]
    by_cases heq : other = cell
    · rw [heq]
      exact ⟨fun _ => ⟨a, hself⟩, fun _ => .inr rfl⟩
    · rw [or_iff_left heq]
      exact exists_congr fun b => by rw [← hother other heq]; rfl

/-- A removed key stands for no cell, but its cell stays. -/
theorem remove (h : x.Sound owner roles) (key : String) : (x.remove key).Sound owner roles := by
  have hcurrent : ∀ k, (x.remove key).slots.current.get? k =
      if k = key then none else x.slots.current.get? k := x.slots.current.get?_erase key
  constructor
  case seats => exact ⟨h.seats.placed, h.seats.alone, h.seats.empty, h.seats.got⟩
  case current =>
    intro k cell hk
    rw [hcurrent] at hk
    split at hk
    · cases hk
    · exact h.current k cell hk
  case kept =>
    intro cell hlt hremoved
    rw [mem_removed_remove, not_or] at hremoved
    rw [hcurrent, if_neg hremoved.2]
    exact h.kept cell hlt hremoved.1
  case made_owner => exact h.made_owner
  case made_nodup => exact h.made_nodup
  case made_of_content => exact h.made_of_content
  case made_comes => exact h.made_comes
  case carried => exact h.carried
  case filled_nodup => exact h.filled_nodup
  case filled_iff => exact h.filled_iff

/-- To fill the cell of a key changes nothing for another. -/
theorem get?_fill_of_ne (h : x.Sound owner roles) {r : Role α} (hi : roles i = some r)
    {other : String} (hother : other ≠ r.key) :
    (x.fill r.cell a).slots.get? other = x.slots.get? other := by
  have hcurrent : (x.fill r.cell a).slots.current = x.slots.current := rfl
  rw [Slots.get?, Slots.get?, hcurrent]
  cases hcell : x.slots.current.get? other with
  | none => rfl
  | some cell =>
    have hne : r.cell ≠ cell := by
      intro heq
      apply hother
      rw [← (h.current other cell hcell).2, ← heq, (h.seats.placed i r hi).2]
    exact x.slots.content?_fill_of_ne hne a

/-- For a key that is not removed, nothing is made twice. -/
theorem made_eq (h : x.Sound owner roles) {m m' : Made α} (hm : m ∈ x.made) (hm' : m' ∈ x.made)
    (hkey : m'.key = m.key) (hremoved : m.key ∉ x.removed) : m' = m := by
  obtain ⟨hlt, howner⟩ := h.made_owner m hm
  obtain ⟨hlt', howner'⟩ := h.made_owner m' hm'
  have hcell := h.kept m.cell hlt (howner ▸ hremoved)
  have hcell' := h.kept m'.cell hlt' (howner' ▸ hkey ▸ hremoved)
  rw [howner] at hcell
  rw [howner', hkey, hcell] at hcell'
  exact List.inj_on_of_nodup_map h.made_nodup hm' hm (Option.some.inj hcell').symm

theorem mem_madeFor {m : Made α} : m ∈ x.madeFor key ↔ m ∈ x.made ∧ m.key = key := by
  rw [madeFor, List.mem_filter, decide_eq_true_iff]

theorem madeFor_eq (h : x.Sound owner roles) {m : Made α} (hm : m ∈ x.made)
    (hremoved : m.key ∉ x.removed) : x.madeFor m.key = [m] := by
  have hall : ∀ m' ∈ x.madeFor m.key, m' = m := fun m' hm' =>
    h.made_eq hm (mem_madeFor.1 hm').1 (mem_madeFor.1 hm').2 hremoved
  have hpos : 0 < (x.madeFor m.key).length := List.length_pos_of_mem (mem_madeFor.2 ⟨hm, rfl⟩)
  have hnodup : (x.madeFor m.key).Nodup := (List.Nodup.of_map _ h.made_nodup).filter _
  rw [List.eq_replicate_of_mem hall, List.nodup_replicate] at hnodup
  rw [List.eq_replicate_of_mem hall, Nat.le_antisymm hnodup hpos]
  rfl

theorem length_madeFor_le (h : x.Sound owner roles) (hremoved : key ∉ x.removed) :
    (x.madeFor key).length ≤ 1 := by
  cases hmade : x.madeFor key with
  | nil => exact Nat.zero_le 1
  | cons m ms =>
    have hm := mem_madeFor.1 (hmade ▸ List.mem_cons_self : m ∈ x.madeFor key)
    obtain ⟨hm, rfl⟩ := hm
    rw [← hmade, h.madeFor_eq hm hremoved]
    exact Nat.le_refl 1

/-- What a caller has got was made for its key. -/
theorem made_of_has (h : x.Sound owner roles) {r : Role α} (hi : roles i = some r)
    (hr : r.act = .has a) : ⟨r.key, r.cell, a⟩ ∈ x.made := by
  rw [← (h.seats.placed i r hi).2]
  exact h.made_of_content r.cell a (h.seats.got i r a hi hr)

end Sound

end RecordedSlots

end ODataGraph
