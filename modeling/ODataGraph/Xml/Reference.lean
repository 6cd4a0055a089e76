import ODataGraph.Xml.Character

/-!
References to characters, and what attribute values and character data stand for once references
are replaced and line ends made uniform.
-/

namespace ODataGraph.Xml

def digitValue? (base : Nat) (c : Char) : Option Nat :=
  let value? :=
    if c.isDigit then some (c.toNat - 48)
    else if 'a' ≤ c ∧ c ≤ 'f' then some (c.toNat - 87)
    else if 'A' ≤ c ∧ c ≤ 'F' then some (c.toNat - 55)
    else none
  value?.filter (· < base)

/-- The character with a number; numbers that no character has give U+FFFD. -/
def charOf (n : Nat) : Char :=
  if n.isValidChar then Char.ofNat n else '\uFFFD'

def namedChar? : List Char → Option Char
  | ['q', 'u', 'o', 't'] => some '"'
  | ['a', 'm', 'p'] => some '&'
  | ['a', 'p', 'o', 's'] => some '\x27'
  | ['l', 't'] => some '<'
  | ['g', 't'] => some '>'
  | _ => none

/-- The character with the number written in `cs`, which must fit in 32 bits. -/
def numberedChar? (base : Nat) (cs : List Char) : Option Char := do
  if cs.isEmpty then none
  let n ← cs.foldlM (fun n c => (digitValue? base c).map (n * base + ·)) 0
  if n < Nat.pow 2 32 ∧ isXmlChar (charOf n) then some (charOf n) else none

/-- A reference without its ampersand, and what follows it. Documents declare no entities, so that
the names are those of the five predefined ones. -/
def readReference (cs : List Char) : Option (Char × List Char) := do
  let body := cs.takeWhile (· != ';')
  let ';' :: rest := cs.dropWhile (· != ';') | none
  let c ← match body with
    | '#' :: 'x' :: digits => numberedChar? 16 digits
    | '#' :: digits => numberedChar? 10 digits
    | name => namedChar? name
  return (c, rest)

/-- The value of an attribute: line ends and tabs as written become spaces, a carriage return
before a line feed is dropped. A reference is at least one character long, so that `fuel` may be
the length of the text. -/
def attributeValue? : Nat → List Char → Option (List Char)
  | _, [] => some []
  | 0, _ => none
  | fuel + 1, '&' :: cs => do
    let (c, rest) ← readReference cs
    return c :: (← attributeValue? fuel rest)
  | fuel + 1, '\r' :: '\n' :: cs => attributeValue? fuel ('\n' :: cs)
  | fuel + 1, c :: cs => do
    let c := if c = '\n' ∨ c = '\r' ∨ c = '\t' then ' ' else c
    return c :: (← attributeValue? fuel cs)

/-- Character data read so far, in reverse. After a referenced character the next one stays as it
is. -/
structure Data where
  read : List Char := []
  verbatim : Bool := false

/-- Appends a character as written: a carriage return, with the line feed after it if there is
one, becomes a line feed, once the character after it is known. -/
def Data.push (d : Data) (c : Char) (last : Bool) : Data :=
  match d.read with
  | '\r' :: read =>
    if last ∧ c = '\r' then { d with read := '\n' :: '\n' :: read }
    else if c = '\n' then { d with read := '\n' :: read }
    else { d with read := c :: '\n' :: read }
  | read => { d with read := (if last ∧ c = '\r' then '\n' else c) :: read }

def Data.pushReferenced (d : Data) (c : Char) : Data := { read := c :: d.read, verbatim := true }

def Data.text (d : Data) : List Char := d.read.reverse

def characterData? : Nat → Data → List Char → Option Data
  | _, d, [] => some d
  | 0, _, _ => none
  | fuel + 1, d, '&' :: cs => do
    let (c, rest) ← readReference cs
    characterData? fuel (d.pushReferenced c) rest
  | fuel + 1, d, c :: cs =>
    if d.verbatim then characterData? fuel { read := c :: d.read } cs
    else characterData? fuel (d.push c cs.isEmpty) cs

/-- Character data in which ampersands have no meaning. -/
def plainData : Data → List Char → Data
  | d, [] => d
  | d, c :: cs => plainData (d.push c cs.isEmpty) cs

end ODataGraph.Xml
