import ODataGraph.Json.Basic

/-!
JSON texts by their grammar alone, and the values they denote.

The grammar does not look at the size of a number, at unpaired halves of surrogate pairs or at
depth: a literal with any of these is well-formed and denotes no value.
-/

namespace ODataGraph.Json

/-- A number as it is written. The exponent is present iff there is an `e`, the fraction nonempty
iff there is a point. -/
structure NumberLiteral where
  negative : Bool
  whole : List Nat
  fraction : List Nat
  exponent : Option Int
  deriving DecidableEq

/-- A character of a string, or an escaped UTF-16 code unit. -/
inductive StringUnit where
  | char (c : Char)
  | unit (code : Nat)
  deriving DecidableEq

inductive Literal where
  | null
  | bool (value : Bool)
  | number (value : NumberLiteral)
  | string (units : List StringUnit)
  | array (items : List Literal)
  | object (members : List (List StringUnit × Literal))
  deriving Inhabited

def isHighSurrogate (code : Nat) : Bool := 0xD800 ≤ code && code < 0xDC00

def isLowSurrogate (code : Nat) : Bool := 0xDC00 ≤ code && code < 0xE000

/-- The text of a string, unless half of a surrogate pair stands alone. -/
def StringUnit.chars? : List StringUnit → Option (List Char)
  | [] => some []
  | .char c :: rest => (chars? rest).map (c :: ·)
  | .unit high :: .unit low :: rest =>
    if isHighSurrogate high then
      if isLowSurrogate low then
        (chars? rest).map (Char.ofNat (0x10000 + (high - 0xD800) * 0x400 + (low - 0xDC00)) :: ·)
      else none
    else if isLowSurrogate high then none
    else (chars? (.unit low :: rest)).map (Char.ofNat high :: ·)
  | .unit code :: rest =>
    if isHighSurrogate code || isLowSurrogate code then none
    else (chars? rest).map (Char.ofNat code :: ·)

def StringUnit.text? (units : List StringUnit) : Option String :=
  (chars? units).map String.ofList

/-- The digits of a number that count, and the power of ten that they are multiplied by. -/
structure Scaled where
  significand : Nat := 0
  exponent : Int := 0
  /-- Whether a digit did not fit in. -/
  full : Bool := false

def maxSignificand : Nat := Nat.pow 2 64 - 1

/-- Digits before the point: once one does not fit, it and all later ones only raise the
exponent. -/
def Scaled.wholeDigit (s : Scaled) (d : Nat) : Scaled :=
  if s.full ∨ maxSignificand < s.significand * 10 + d then
    { s with exponent := s.exponent + 1, full := true }
  else { s with significand := s.significand * 10 + d }

/-- Digits after the point: once one does not fit, it and all later ones are dropped. -/
def Scaled.fractionDigit (s : Scaled) (d : Nat) : Scaled :=
  if s.full ∨ maxSignificand < s.significand * 10 + d then { s with full := true }
  else { s with significand := s.significand * 10 + d, exponent := s.exponent - 1 }

/-- `x · 10 ^ exponent`, rounded after each step: the powers of ten at hand end at `10 ^ 308`, so
that a smaller number is divided by that one first. -/
def scaleByPow10? (x : Binary64) (exponent : Int) : Option Binary64 :=
  let down (y : Binary64) (n : Nat) : Option Binary64 := do y.div? (← Binary64.pow10? n)
  if x.isZero then some x
  else if 308 < exponent then none
  else if 0 ≤ exponent then do x.mul? (← Binary64.pow10? exponent.toNat)
  else if -308 ≤ exponent then down x (-exponent).toNat
  else if -616 ≤ exponent then do down (← down x 308) (-exponent - 308).toNat
  else some Binary64.zero

def floatOf? (negative : Bool) (s : Scaled) : Option Number := do
  let x ← scaleByPow10? (← Binary64.ofNat? s.significand) s.exponent
  return .float (if negative then x.neg else x)

/-- The number a literal stands for. Whole numbers within 64 bits are exact, apart from negative
zero; the others are floating-point numbers, and those beyond their range have no value. -/
def NumberLiteral.value? (n : NumberLiteral) : Option Number :=
  let whole := n.whole.foldl Scaled.wholeDigit {}
  if n.fraction.isEmpty ∧ n.exponent.isNone ∧ !whole.full then
    if !n.negative then some (.int whole.significand)
    else if 0 < whole.significand ∧ whole.significand ≤ Nat.pow 2 63 then
      some (.int (-whole.significand))
    else floatOf? true whole
  else
    let all := n.fraction.foldl Scaled.fractionDigit { whole with full := false }
    floatOf? n.negative { all with exponent := all.exponent + n.exponent.getD 0 }

mutual

def Literal.valueAt? (depth : Nat) : Literal → Option Json
  | .null => some .null
  | .bool b => some (.bool b)
  | .number n => n.value?.map .number
  | .string units => (StringUnit.text? units).map .string
  | .array items =>
    if depth = 0 then none else (Literal.items? (depth - 1) items).map .array
  | .object members =>
    if depth = 0 then none
    else (Literal.members? (depth - 1) members).map fun ms => .object (Members.ofList ms)

def Literal.items? (depth : Nat) : List Literal → Option (List Json)
  | [] => some []
  | item :: items => do
    let value ← Literal.valueAt? depth item
    return value :: (← Literal.items? depth items)

def Literal.members? (depth : Nat) :
    List (List StringUnit × Literal) → Option (List (String × Json))
  | [] => some []
  | (name, item) :: members => do
    let name ← StringUnit.text? name
    let value ← Literal.valueAt? depth item
    return (name, value) :: (← Literal.members? depth members)

end

def maxDepth : Nat := 127

def Literal.value? (l : Literal) : Option Json := l.valueAt? maxDepth

end ODataGraph.Json
