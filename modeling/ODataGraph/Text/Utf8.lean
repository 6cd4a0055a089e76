/-!
Reading bytes as UTF-8. Bytes that cannot stand where they are become replacement characters, one
for each maximal run that starts a character without finishing it.
-/

namespace ODataGraph.Text.Utf8

/-- A character under way: the bits so far, the bytes still owed, and the range of the next one. -/
structure Pending where
  bits : Nat
  owed : Nat
  low : Nat := 0x80
  high : Nat := 0xBF

/-- How a byte can start a character: by itself, or with more to come. -/
def start (b : Nat) : Option (Char ⊕ Pending) :=
  if b < 0x80 then some (.inl (Char.ofNat b))
  else if 0xC2 ≤ b ∧ b ≤ 0xDF then some (.inr { bits := b - 0xC0, owed := 1 })
  else if b = 0xE0 then some (.inr { bits := 0, owed := 2, low := 0xA0 })
  else if b = 0xED then some (.inr { bits := 13, owed := 2, high := 0x9F })
  else if 0xE1 ≤ b ∧ b ≤ 0xEF then some (.inr { bits := b - 0xE0, owed := 2 })
  else if b = 0xF0 then some (.inr { bits := 0, owed := 3, low := 0x90 })
  else if 0xF1 ≤ b ∧ b ≤ 0xF3 then some (.inr { bits := b - 0xF0, owed := 3 })
  else if b = 0xF4 then some (.inr { bits := 4, owed := 3, high := 0x8F })
  else none

/-- What the bytes read so far amount to, in reverse; `none` marks bytes that are no character. -/
structure Reading where
  read : List (Option Char) := []
  pending : Option Pending := none

def Reading.begin (r : Reading) (b : Nat) : Reading :=
  match start b with
  | none => { read := none :: r.read }
  | some (.inl c) => { read := some c :: r.read }
  | some (.inr p) => { r with pending := some p }

def Reading.step (r : Reading) (b : Nat) : Reading :=
  match r.pending with
  | none => r.begin b
  | some p =>
    if p.low ≤ b ∧ b ≤ p.high then
      let bits := p.bits * 64 + (b - 0x80)
      if p.owed ≤ 1 then { read := some (Char.ofNat bits) :: r.read }
      else { r with pending := some { bits := bits, owed := p.owed - 1 } }
    else Reading.begin { read := none :: r.read } b

def Reading.finish (r : Reading) : List (Option Char) :=
  (if r.pending.isSome then none :: r.read else r.read).reverse

/-- The characters of a byte sequence, `none` for each run that is none. -/
def characters (bytes : List UInt8) : List (Option Char) :=
  (bytes.foldl (fun r b => r.step b.toNat) ({} : Reading)).finish

def decode? (bytes : List UInt8) : Option String :=
  ((characters bytes).mapM id).map String.ofList

/-- The text of any bytes, with U+FFFD for what is not well-formed. -/
def decodeLossy (bytes : List UInt8) : String :=
  String.ofList ((characters bytes).map (·.getD '\uFFFD'))

def encode (s : String) : List UInt8 := s.toUTF8.toList

end ODataGraph.Text.Utf8
