import ODataGraph.Text.Cut
import ODataGraph.Xml.Reference

/-! The tags, texts and remarks that an XML document is a sequence of. -/

namespace ODataGraph.Xml

structure QName where
  qualifier : List Char
  name : List Char
  deriving DecidableEq

structure RawAttribute where
  name : QName
  value : List Char

inductive TokenKind where
  | startTag (name : QName) (attributes : List RawAttribute) (isEmpty : Bool)
  | endTag (name : QName)
  | text (content : List Char)
  /-- A comment or a processing instruction. -/
  | remark

structure Token where
  kind : TokenKind
  source : List Char

def cutAfter (stop : List Char) : List Char → Option (List Char × List Char)
  | [] => if stop.isEmpty then some ([], []) else none
  | c :: cs =>
    if stop.isPrefixOf (c :: cs) then some (stop, (c :: cs).drop stop.length)
    else (cutAfter stop cs).map fun (before, rest) => (c :: before, rest)

/-- Cuts a text after the first `>` that does not stand between quotes. -/
def cutAfterTag : Option Char → List Char → Option (List Char × List Char)
  | _, [] => none
  | quote, c :: cs =>
    match quote with
    | some q =>
      let quote := if c = q then none else quote
      (cutAfterTag quote cs).map fun (tag, rest) => (c :: tag, rest)
    | none =>
      if c = '>' then some (['>'], cs)
      else
        let quote := if c = '"' ∨ c = '\x27' then some c else none
        (cutAfterTag quote cs).map fun (tag, rest) => (c :: tag, rest)

/-- A name with at most one colon; the part before it may be empty. -/
def readQName (cs : List Char) : Option (QName × List Char) := do
  let starts (part : List Char) := part.head?.any isNameStart
  let rest := cs.dropWhile isNameChar
  match Text.cut ':' (cs.takeWhile isNameChar) with
  | [name] => if starts name then some (⟨[], name⟩, rest) else none
  | [qualifier, name] =>
    if starts name ∧ (qualifier.isEmpty ∨ starts qualifier) then some (⟨qualifier, name⟩, rest)
    else none
  | _ => none

/-- `= "value"`, with the value as written. -/
def readQuoted (cs : List Char) : Option (List Char × List Char) := do
  let '=' :: cs := skipSpace cs | none
  let quote :: cs := skipSpace cs | none
  if quote ≠ '"' ∧ quote ≠ '\x27' then none
  let value := cs.takeWhile fun c => c != quote && c != '<'
  let close :: rest := cs.dropWhile (fun c => c != quote && c != '<') | none
  if close = quote ∧ value.all isXmlChar then some (value, rest) else none

def readAttribute (cs : List Char) : Option (RawAttribute × List Char) := do
  let (name, cs) ← readQName cs
  let (value, rest) ← readQuoted cs
  return (⟨name, ← attributeValue? value.length value⟩, rest)

/-- The rest of a start tag after its name, which ends the text. Whether the tag is that of an
empty element is the second part. -/
def readAttributes? : Nat → List Char → Option (List RawAttribute × Bool)
  | 0, _ => none
  | fuel + 1, cs =>
    match skipSpace cs with
    | ['>'] => some ([], false)
    | ['/', '>'] => some ([], true)
    | rest => do
      if !cs.head?.any isSpace then none
      let (first, rest) ← readAttribute rest
      let (others, isEmpty) ← readAttributes? fuel rest
      return (first :: others, isEmpty)

/-- Comments hold no two hyphens in a row, nor one at the end. -/
def isComment (body : List Char) : Bool :=
  body.all isXmlChar && body.getLast? != some '-' && (cutAfter ['-', '-'] body).isNone

def isInstruction (body : List Char) : Bool := body.all isXmlChar && body.head?.any isNameStart

def declarationStart : List Char := "<?xml ".toList

def readMarkup (cs : List Char) : Option (Token × List Char) :=
  match cs with
  | '<' :: '!' :: '-' :: '-' :: body => do
    let (body, rest) ← cutAfter ['-', '-', '>'] body
    if isComment (body.take (body.length - 3)) then
      some (⟨.remark, '<' :: '!' :: '-' :: '-' :: body⟩, rest)
    else none
  | '<' :: '!' :: '[' :: 'C' :: 'D' :: 'A' :: 'T' :: 'A' :: '[' :: body => do
    let (body, rest) ← cutAfter [']', ']', '>'] body
    let content := body.take (body.length - 3)
    if content.all isXmlChar then
      some (⟨.text (plainData {} content).text, "<![CDATA[".toList ++ body⟩, rest)
    else none
  | '<' :: '?' :: body => do
    if declarationStart.isPrefixOf cs then none
    let (body, rest) ← cutAfter ['?', '>'] body
    if isInstruction (body.take (body.length - 2)) then some (⟨.remark, '<' :: '?' :: body⟩, rest)
    else none
  | '<' :: '/' :: body => do
    let (body, rest) ← cutAfter ['>'] body
    let (name, close) ← readQName body
    if skipSpace close = ['>'] then some (⟨.endTag name, '<' :: '/' :: body⟩, rest) else none
  | '<' :: body => do
    let (body, rest) ← cutAfterTag none body
    let (name, cs) ← readQName body
    let (attributes, isEmpty) ← readAttributes? body.length cs
    return (⟨.startTag name attributes isEmpty, '<' :: body⟩, rest)
  | _ => none

/-- Text up to the next tag. The end of a CDATA section must not stand in it. -/
def readText (cs : List Char) : Option (Token × List Char) := do
  let source := cs.takeWhile (· != '<')
  if !source.all isXmlChar || (cutAfter [']', ']', '>'] source).isSome then none
  let data ← characterData? source.length {} source
  return (⟨.text data.text, source⟩, cs.dropWhile (· != '<'))

/-- All tokens of a text. A token is at least one character long, so that `fuel` may be the length
of the text. -/
def tokens? : Nat → List Char → Option (List Token)
  | _, [] => some []
  | 0, _ => none
  | fuel + 1, cs => do
    let (token, rest) ← if cs.head? = some '<' then readMarkup cs else readText cs
    return token :: (← tokens? fuel rest)

end ODataGraph.Xml
