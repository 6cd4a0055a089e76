/-!
Floating-point numbers of 64 bits. A finite one stands for
`± significand · 2 ^ scale / 2 ^ 1074`; arithmetic is exact on these fractions and then rounds to
the nearest number, ties to the even significand.
-/

namespace ODataGraph

structure Binary64 where
  bits : UInt64
  deriving DecidableEq, Inhabited

namespace Binary64

def isNegative (x : Binary64) : Bool := Nat.pow 2 63 ≤ x.bits.toNat

def exponentField (x : Binary64) : Nat := x.bits.toNat / Nat.pow 2 52 % 2048

def significand (x : Binary64) : Nat :=
  let fraction := x.bits.toNat % Nat.pow 2 52
  if x.exponentField = 0 then fraction else fraction + Nat.pow 2 52

def scale (x : Binary64) : Nat := x.exponentField - 1

def isZero (x : Binary64) : Bool := x.bits.toNat % Nat.pow 2 63 == 0

def zero : Binary64 := ⟨0⟩

def neg (x : Binary64) : Binary64 := ⟨x.bits ^^^ 0x8000000000000000⟩

/-- The integer nearest to a quotient; a half goes to the even neighbour. -/
def roundDiv (num den : Nat) : Nat :=
  let quotient := num / den
  let rest := num % den
  if 2 * rest < den then quotient
  else if den < 2 * rest then quotient + 1
  else quotient + quotient % 2

/-- The number nearest to `num / den`, if the finite numbers reach that far. A significand that
rounds up to the next power of two carries into the exponent. -/
def ofRatio? (negative : Bool) (num den : Nat) : Option Binary64 :=
  let units := num * Nat.pow 2 1074
  let scale := Nat.log2 (units / den) - 52
  let magnitude := scale * Nat.pow 2 52 + roundDiv units (den * Nat.pow 2 scale)
  if magnitude < 2047 * Nat.pow 2 52 then
    some ⟨UInt64.ofNat (magnitude + if negative then Nat.pow 2 63 else 0)⟩
  else none

def ofNat? (n : Nat) : Option Binary64 := ofRatio? false n 1

def mul? (x y : Binary64) : Option Binary64 :=
  ofRatio? (x.isNegative != y.isNegative)
    (x.significand * y.significand * Nat.pow 2 (x.scale + y.scale)) (Nat.pow 2 2148)

def div? (x y : Binary64) : Option Binary64 :=
  ofRatio? (x.isNegative != y.isNegative)
    (x.significand * Nat.pow 2 x.scale) (y.significand * Nat.pow 2 y.scale)

def pow10? (n : Nat) : Option Binary64 := ofNat? (Nat.pow 10 n)

end Binary64

end ODataGraph
