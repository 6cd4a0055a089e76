import ODataGraph.Binary64

/-!
The decimal with the fewest digits that reads back as a given number, and of those with that many
digits the one nearest to it.

In units of a quarter of the last place a number with significand `m` is `4 m`, and the values that
round to it reach from `4 m - 2` (`4 m - 1` above a power of two) to `4 m + 2`, ends included if
`m` is even.
-/

namespace ODataGraph.Decimal

/-- `digits · 10 ^ exponent` -/
structure Shortest where
  digits : Nat
  exponent : Int
  deriving DecidableEq

/-- A positive number `value · unit` with the ends of its rounding interval, where `unit` is
`2 ^ scale / 2 ^ 1076`. -/
structure Interval where
  value : Nat
  low : Nat
  high : Nat
  scale : Nat
  closed : Bool

def Interval.of (x : Binary64) : Interval :=
  let m := x.significand
  { value := 4 * m
    low := if m = Nat.pow 2 52 ∧ 1 < x.exponentField then 4 * m - 1 else 4 * m - 2
    high := 4 * m + 2
    scale := x.scale
    closed := m % 2 == 0 }

def unitDen : Nat := Nat.pow 2 1076

def digitCount (n : Nat) : Nat := (Nat.toDigits 10 n).length

/-- The exponent of the first digit. -/
def Interval.magnitude (i : Interval) : Int :=
  let num := i.value * Nat.pow 2 i.scale
  if unitDen ≤ num then (digitCount (num / unitDen) : Int) - 1
  else -(digitCount ((unitDen + num - 1) / num - 1) : Int)

/-- `u` units and `c` steps of the grid `10 ^ k`, brought to a common denominator. -/
def Interval.onGrid (i : Interval) (k : Int) (u c : Nat) : Nat × Nat :=
  let units := u * Nat.pow 2 i.scale
  if 0 ≤ k then (units, c * Nat.pow 10 k.toNat * unitDen)
  else (units * Nat.pow 10 (-k).toNat, c * unitDen)

def Interval.contains (i : Interval) (k : Int) (c : Nat) : Bool :=
  let (low, point) := i.onGrid k i.low c
  let (high, _) := i.onGrid k i.high c
  if i.closed then low ≤ point && point ≤ high else low < point && point < high

/-- The grid point of spacing `10 ^ k` in the interval that is nearest to the number: one of its
two neighbours, the even one if they are equally near. -/
def Interval.point? (i : Interval) (k : Int) : Option Nat :=
  let (value, step) := i.onGrid k i.value 1
  let below := value / step
  match i.contains k below, i.contains k (below + 1) with
  | true, true => some (Binary64.roundDiv value step)
  | true, false => some below
  | false, true => some (below + 1)
  | false, false => none

/-- Drops zeros at the end; a number of 17 digits has fewer than `fuel`. -/
def dropZeros : Nat → Shortest → Shortest
  | 0, d => d
  | fuel + 1, d =>
    if d.digits % 10 = 0 ∧ d.digits ≠ 0 then dropZeros fuel ⟨d.digits / 10, d.exponent + 1⟩ else d

/-- The shortest decimal of a finite number other than zero, without its sign. Seventeen digits
always suffice. -/
def shortest (x : Binary64) : Shortest :=
  let i := Interval.of x
  let grid (n : Nat) : Int := i.magnitude - n
  match (List.range 17).findSome? fun n => (i.point? (grid n)).map (⟨·, grid n⟩) with
  | some d => dropZeros 20 d
  | none => ⟨0, 0⟩

end ODataGraph.Decimal
