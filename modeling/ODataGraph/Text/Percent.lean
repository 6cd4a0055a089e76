import ODataGraph.Text.Utf8

/-!
Percent-encoding: every byte of a text's UTF-8 form that is not kept as it is becomes `%` and two
upper-case hexadecimal digits.
-/

namespace ODataGraph.Text.Percent

/-- Letters, digits and `-._~` stand for themselves in every URL; the apostrophe delimits string
literals. -/
def isKept (c : Char) : Bool :=
  c.isAlphanum || c == '-' || c == '.' || c == '_' || c == '~' || c == '\x27'

def hexDigit (n : Nat) : Char :=
  if n < 10 then Char.ofNat (48 + n) else Char.ofNat (55 + n)

def encodeByte (b : UInt8) : List Char :=
  let c := Char.ofNat b.toNat
  if b.toNat < 0x80 ∧ isKept c then [c]
  else ['%', hexDigit (b.toNat / 16), hexDigit (b.toNat % 16)]

def encode (s : String) : String :=
  String.ofList ((Utf8.encode s).flatMap encodeByte)

end ODataGraph.Text.Percent
