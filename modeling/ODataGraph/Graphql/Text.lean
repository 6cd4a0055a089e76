import ODataGraph.Json.Reader

/-! Strings in GraphQL documents, between one quote or three on each side. -/

namespace ODataGraph.Graphql.Text

def isLineEnd (c : Char) : Bool := c == '\n' || c == '\r'

/-- The character with a four-digit code. Halves of surrogate pairs are none. -/
def ofCode? (digits : List Char) : Option Char := do
  let code ← Json.hexCode? digits
  if 0xD800 ≤ code ∧ code < 0xE000 then none else some (Char.ofNat code)

def readLine : List Char → Option (List Char × List Char)
  | [] => none
  | '"' :: cs => some ([], cs)
  | '\\' :: 'u' :: a :: b :: c :: d :: cs => do
    let c ← ofCode? [a, b, c, d]
    let (text, rest) ← readLine cs
    return (c :: text, rest)
  | '\\' :: c :: cs => do
    let c ← Json.escaped? c
    let (text, rest) ← readLine cs
    return (c :: text, rest)
  | c :: cs => do
    if isLineEnd c ∨ c = '\\' then none
    let (text, rest) ← readLine cs
    return (c :: text, rest)

/-- The rest of a block string after its three opening quotes, as it is written. Three quotes after
a backslash do not close it. -/
def readBlock : List Char → Option (List Char × List Char)
  | [] => none
  | '\\' :: '"' :: '"' :: '"' :: cs =>
    (readBlock cs).map fun (text, rest) => ('\\' :: '"' :: '"' :: '"' :: text, rest)
  | '"' :: '"' :: '"' :: cs => some ([], cs)
  | c :: cs => (readBlock cs).map fun (text, rest) => (c :: text, rest)

/-- Lines that end at `\n`, `\r` or both; there is always a last one. -/
def lines : List Char → List (List Char)
  | [] => [[]]
  | '\r' :: '\n' :: cs => [] :: lines cs
  | c :: cs =>
    if isLineEnd c then [] :: lines cs
    else match lines cs with
      | [] => [[c]]
      | line :: rest => (c :: line) :: rest

def isIndent (c : Char) : Bool := c == ' ' || c == '\t'

def hasContent (line : List Char) : Bool := line.any (!isIndent ·)

def indent (line : List Char) : Nat := (line.takeWhile isIndent).length

/-- Removes the indent that all lines with content but the first one share, and the lines without
content at both ends. -/
def dedent (text : List Char) : List Char :=
  match lines text with
  | [] => []
  | first :: rest =>
    let shared := ((rest.filter hasContent).map indent).min?.getD 0
    let rest := rest.map fun line => if shared ≤ line.length then line.drop shared else line
    let content := ((first :: rest).dropWhile (!hasContent ·)).reverse.dropWhile (!hasContent ·)
    List.intercalate ['\n'] content.reverse

/-- A string from its first quote on. Three quotes that no three others follow are an empty string
and one more quote. -/
def read (cs : List Char) : Option (List Char × List Char) :=
  match cs with
  | '"' :: '"' :: '"' :: rest =>
    match readBlock rest with
    | some (text, rest) => some (dedent text, rest)
    | none => some ([], '"' :: rest)
  | '"' :: rest => readLine rest
  | _ => none

end ODataGraph.Graphql.Text
