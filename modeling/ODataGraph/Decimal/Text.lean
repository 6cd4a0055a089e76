import ODataGraph.Decimal.Shortest

/-!
Numbers written in decimal: those of moderate size are written positionally and keep a point,
others with an exponent that has a sign and no point that is not needed.
-/

namespace ODataGraph.Decimal

/-- Which exponents of the first digit are written positionally: `first ≤ e < past`. -/
structure Form where
  first : Int
  past : Int

def Form.standard : Form := ⟨-5, 16⟩

def zeros (n : Nat) : List Char := List.replicate n '0'

def natText (n : Nat) : List Char := Nat.toDigits 10 n

def intText (i : Int) : List Char :=
  if i < 0 then '-' :: natText i.natAbs else natText i.natAbs

/-- Digits with the point after the digit of exponent zero. -/
def positional (digits : List Char) (magnitude : Int) : List Char :=
  if magnitude < 0 then
    ['0', '.'] ++ zeros (-magnitude - 1).toNat ++ digits
  else
    let whole := magnitude.toNat + 1
    if digits.length ≤ whole then digits ++ zeros (whole - digits.length) ++ ['.', '0']
    else digits.take whole ++ '.' :: digits.drop whole

def scientific (digits : List Char) (magnitude : Int) : List Char :=
  let sign := if magnitude < 0 then '-' else '+'
  let fraction := if digits.length ≤ 1 then [] else '.' :: digits.drop 1
  digits.take 1 ++ fraction ++ ['e', sign] ++ natText magnitude.natAbs

def Form.write (form : Form) (d : Shortest) : List Char :=
  let digits := natText d.digits
  let magnitude := d.exponent + digits.length - 1
  if form.first ≤ magnitude ∧ magnitude < form.past then positional digits magnitude
  else scientific digits magnitude

def text (x : Binary64) : List Char :=
  let sign := if x.isNegative then ['-'] else []
  sign ++ if x.isZero then ['0', '.', '0'] else Form.standard.write (shortest x)

end ODataGraph.Decimal
