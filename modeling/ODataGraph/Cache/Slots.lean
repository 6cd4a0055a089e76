import ODataGraph.OrderedMap

/-!
Cells that are found by a key and filled once. Whoever has taken a cell keeps it, also when its key
is removed and stands for another cell later.
-/

namespace ODataGraph

structure Slots (α : Type u) where
  /-- The number of the cell that a key stands for. -/
  current : OrderedMap String Nat := ∅
  cells : List (Option α) := []

namespace Slots

variable {α : Type u}

/-- The cell of a key, which is a new and empty one if the key had none. -/
def take (s : Slots α) (key : String) : Nat × Slots α :=
  match s.current.get? key with
  | some cell => (cell, s)
  | none =>
    (s.cells.length,
      { current := s.current.insert key s.cells.length, cells := s.cells ++ [none] })

def content? (s : Slots α) (cell : Nat) : Option α := (s.cells[cell]?).join

def fill (s : Slots α) (cell : Nat) (a : α) : Slots α :=
  { s with cells := s.cells.set cell (some a) }

def get? (s : Slots α) (key : String) : Option α := (s.current.get? key).bind s.content?

def remove (s : Slots α) (key : String) : Slots α := { s with current := s.current.erase key }

/-- A taken cell is the one that its key stands for, or else a new one after all others. -/
theorem cases_take (s : Slots α) (key : String) :
    (s.take key).2 = s ∧ s.current.get? key = some (s.take key).1 ∨
      s.current.get? key = none ∧ (s.take key).1 = s.cells.length ∧
        (s.take key).2.cells = s.cells ++ [none] := by
  rw [take]
  cases h : s.current.get? key with
  | some cell => exact .inl ⟨rfl, rfl⟩
  | none => exact .inr ⟨rfl, rfl, rfl⟩

theorem get?_current_take (s : Slots α) (key key' : String) :
    (s.take key).2.current.get? key' =
      if key' = key then some (s.take key).1 else s.current.get? key' := by
  rw [take]
  cases h : s.current.get? key with
  | some cell =>
    by_cases hk : key' = key
    · rw [hk, if_pos rfl, h]
    · rw [if_neg hk]
  | none => exact OrderedMap.get?_insert s.current key key' s.cells.length

@[simp] theorem content?_take (s : Slots α) (key : String) (cell : Nat) :
    (s.take key).2.content? cell = s.content? cell := by
  rcases s.cases_take key with ⟨h, _⟩ | ⟨_, _, h⟩
  · rw [h]
  · rw [content?, content?, h, List.getElem?_append]
    split
    · rfl
    · rename_i hlen
      rw [List.getElem?_eq_none (Nat.le_of_not_lt hlen)]
      rcases Nat.eq_or_lt_of_le (Nat.le_of_not_lt hlen) with heq | hlt
      · simp [heq]
      · rw [List.getElem?_eq_none (by simp; omega)]

theorem get?_take (s : Slots α) {key key' : String} (h : key' ≠ key) :
    (s.take key).2.get? key' = s.get? key' := by
  rw [get?, get?, get?_current_take, if_neg h]
  exact congrArg _ (funext (s.content?_take key))

theorem content?_fill (s : Slots α) {cell : Nat} (h : cell < s.cells.length) (a : α) :
    (s.fill cell a).content? cell = some a := by
  simp [fill, content?, h]

theorem content?_fill_of_ne (s : Slots α) {cell other : Nat} (h : cell ≠ other) (a : α) :
    (s.fill cell a).content? other = s.content? other := by
  simp [fill, content?, h]

theorem get?_remove (s : Slots α) (key key' : String) :
    (s.remove key).get? key' = if key' = key then none else s.get? key' := by
  by_cases h : key' = key <;> simp [get?, remove, OrderedMap.get?_erase, h]
  rfl

end Slots

end ODataGraph
