import ODataGraph.Graphql.Document
import ODataGraph.Graphql.Name
import ODataGraph.Graphql.Text

/-!
Reading GraphQL documents. Each function reads one construct at the start of a text and gives what
follows it. A keyword may run into the name after it.
-/

namespace ODataGraph.Graphql

/-- Characters between tokens without a meaning, commas among them. -/
def isIgnored (c : Char) : Bool :=
  c == ' ' || c == ',' || c == '\t' || c == '\x0d' || c == '\n' || c == '\ufeff'

/-- Drops ignored characters and comments, or first the rest of a comment. -/
def skipFrom (inComment : Bool) : List Char → List Char
  | [] => []
  | c :: cs =>
    if inComment then skipFrom (!Text.isLineEnd c) cs
    else if isIgnored c then skipFrom false cs
    else if c = '#' then skipFrom true cs
    else c :: cs

def skip (cs : List Char) : List Char := skipFrom false cs

/-- Reads as often as it can, at most `n` times. -/
def readMany (read : List Char → Option (α × List Char)) : Nat → List Char → List α × List Char
  | 0, cs => ([], cs)
  | n + 1, cs =>
    match read cs with
    | some (a, rest) =>
      let (as, rest) := readMany read n rest
      (a :: as, rest)
    | none => ([], cs)

def readBetween (opening closing : Char) (read : List Char → Option (α × List Char))
    (cs : List Char) : Option (List α × List Char) := do
  let c :: cs := skip cs | none
  if c ≠ opening then none
  let (as, rest) := readMany read cs.length cs
  let c :: rest := skip rest | none
  if c = closing then some (as, rest) else none

def readSome (opening closing : Char) (read : List Char → Option (α × List Char))
    (cs : List Char) : Option (List α × List Char) :=
  (readBetween opening closing read cs).filter (!·.1.isEmpty)

/-- What is read if it starts with a character, else nothing. -/
def readIf (start : Char) (read : List Char → Option (List α × List Char)) (cs : List Char) :
    Option (List α × List Char) :=
  if (skip cs).head? = some start then read cs else some ([], cs)

def readNameHere (cs : List Char) : Option (String × List Char) :=
  if cs.head?.any isNameStart then
    some (String.ofList (cs.takeWhile isNameChar), cs.dropWhile isNameChar)
  else none

def readName (cs : List Char) : Option (String × List Char) := readNameHere (skip cs)

def readKeyword (keyword : String) (cs : List Char) : Option (List Char) :=
  let cs := skip cs
  if keyword.toList.isPrefixOf cs then some (cs.drop keyword.length) else none

/-- The whole part of a number. Nothing follows a leading zero. -/
def readWhole (cs : List Char) : Option (List Nat × List Char) :=
  match cs with
  | '0' :: rest => some ([0], rest)
  | _ =>
    let (digits, rest) := Json.readDigits cs
    if digits.isEmpty then none else some (digits, rest)

/-- A number, which no letter follows. A point or an exponent without digits is no part of it. -/
def readNumber (cs : List Char) : Option (Json.NumberLiteral × List Char) := do
  let (negative, cs) := match cs with
    | '-' :: rest => (true, rest)
    | _ => (false, cs)
  let (whole, cs) ← readWhole cs
  let (fraction, cs) := (Json.readFraction cs).getD ([], cs)
  let (exponent, cs) := (Json.readExponent cs).getD (none, cs)
  if cs.head?.any isNameStart then none else some (⟨negative, whole, fraction, exponent⟩, cs)

/-- A word that is a value: `true`, `false` and `null` may run into a name after them. -/
def readWord (cs : List Char) : Option (Value × List Char) :=
  match cs with
  | 't' :: 'r' :: 'u' :: 'e' :: rest => some (.bool true, rest)
  | 'f' :: 'a' :: 'l' :: 's' :: 'e' :: rest => some (.bool false, rest)
  | 'n' :: 'u' :: 'l' :: 'l' :: rest => some (.null, rest)
  | _ => (readNameHere cs).map fun (name, rest) => (.enum name, rest)

def readMember (readValue : List Char → Option (Value × List Char)) (cs : List Char) :
    Option ((String × Value) × List Char) := do
  let (name, cs) ← readName cs
  let ':' :: cs := skip cs | none
  let (value, rest) ← readValue cs
  return ((name, value), rest)

/-- A value with lists and objects in it less than `depth` deep. There are no variables in a
constant. -/
def readValue (isConstant : Bool) : Nat → List Char → Option (Value × List Char)
  | 0, _ => none
  | depth + 1, cs =>
    let cs := skip cs
    match cs with
    | '$' :: rest =>
      if isConstant then none
      else (readName rest).map fun (name, rest) => (.variable name, rest)
    | '"' :: _ => (Text.read cs).map fun (text, rest) => (.string (String.ofList text), rest)
    | '[' :: _ =>
      (readBetween '[' ']' (readValue isConstant depth) cs).map fun (items, rest) =>
        (.list items, rest)
    | '\x7b' :: _ =>
      (readBetween '\x7b' '\x7d' (readMember (readValue isConstant depth)) cs).map
        fun (members, rest) => (.object members, rest)
    | c :: _ =>
      if c = '-' ∨ c.isDigit then (readNumber cs).map fun (n, rest) => (.number n.value?, rest)
      else readWord cs
    | [] => none

def readArguments (cs : List Char) : Option (List (String × Value) × List Char) :=
  readIf '(' (readSome '(' ')' (readMember (readValue false cs.length))) cs

def readDirective (cs : List Char) : Option (Directive × List Char) := do
  let '@' :: cs := skip cs | none
  let (name, cs) ← readName cs
  let (arguments, rest) ← readArguments cs
  return (⟨name, arguments⟩, rest)

def readDirectives (cs : List Char) : List Directive × List Char :=
  readMany readDirective cs.length cs

def readCondition (cs : List Char) : Option (String × List Char) := do
  let cs ← readKeyword "on" cs
  if cs.head?.any isIgnored then readNameHere (cs.dropWhile isIgnored) else none

def readSelections (readSelection : List Char → Option (Selection × List Char)) (cs : List Char) :
    Option (List Selection × List Char) :=
  readSome '\x7b' '\x7d' readSelection cs

/-- What follows three dots: a fragment's name, or a fragment itself. -/
def readSpread (readSelection : List Char → Option (Selection × List Char)) (cs : List Char) :
    Option (Selection × List Char) := do
  match readCondition cs, readName cs with
  | none, some (name, cs) =>
    let (directives, rest) := readDirectives cs
    return (.spread name directives, rest)
  | condition, _ =>
    let (directives, cs) := readDirectives ((condition.map (·.2)).getD cs)
    let (selections, rest) ← readSelections readSelection cs
    return (.inline (condition.map (·.1)) directives selections, rest)

def readField (readSelection : List Char → Option (Selection × List Char)) (cs : List Char) :
    Option (Selection × List Char) := do
  let (key, cs) ← readName cs
  let (name, cs) ← match skip cs with
    | ':' :: cs => readName cs
    | _ => some (key, cs)
  let (arguments, cs) ← readArguments cs
  let (directives, cs) := readDirectives cs
  let (selections, rest) ← readIf '\x7b' (readSelections readSelection) cs
  return (.field key name arguments directives selections, rest)

/-- A selection with selections in it less than `depth` deep. -/
def readSelection : Nat → List Char → Option (Selection × List Char)
  | 0, _ => none
  | depth + 1, cs =>
    match skip cs with
    | '.' :: '.' :: '.' :: rest => readSpread (readSelection depth) rest
    | _ => readField (readSelection depth) cs

/-- A type, which holds no ignored characters. -/
def readType : Nat → List Char → Option (VariableType × List Char)
  | 0, _ => none
  | depth + 1, cs => do
    let (type, rest) ← match cs with
      | '[' :: cs => do
        let (element, rest) ← readType depth cs
        let ']' :: rest := rest | none
        pure (VariableType.list element, rest)
      | _ => (readNameHere cs).map fun (name, rest) => (VariableType.named name, rest)
    match rest with
    | '!' :: rest => return (type false, rest)
    | _ => return (type true, rest)

def readVariable (cs : List Char) : Option (VariableDefinition × List Char) := do
  let '$' :: cs := skip cs | none
  let (name, cs) ← readName cs
  let ':' :: cs := skip cs | none
  let (type, cs) ← readType cs.length (skip cs)
  let (directives, cs) := readDirectives cs
  match skip cs with
  | '=' :: cs =>
    let (value, rest) ← readValue true cs.length cs
    return (⟨name, type, directives, some value⟩, rest)
  | _ => return (⟨name, type, directives, none⟩, cs)

def readKind (cs : List Char) : Option (OperationKind × List Char) :=
  ((readKeyword "query" cs).map (OperationKind.query, ·)).or
    (((readKeyword "mutation" cs).map (OperationKind.mutation, ·)).or
      ((readKeyword "subscription" cs).map (OperationKind.subscription, ·)))

def readOperation (cs : List Char) : Option (OperationDefinition × List Char) := do
  match readKind cs with
  | some (kind, cs) =>
    let (name, cs) := match readName cs with
      | some (name, cs) => (some name, cs)
      | none => (none, cs)
    let (definitions, cs) ← readIf '(' (readBetween '(' ')' readVariable) cs
    let (directives, cs) := readDirectives cs
    let (selections, rest) ← readSelections (readSelection cs.length) cs
    return (⟨kind, name, definitions, directives, selections⟩, rest)
  | none =>
    let (selections, rest) ← readSelections (readSelection cs.length) cs
    return (⟨.query, none, [], [], selections⟩, rest)

def readFragment (cs : List Char) : Option (Fragment × List Char) := do
  let cs ← readKeyword "fragment" cs
  let (name, cs) ← readName cs
  let (condition, cs) ← readCondition cs
  let (directives, cs) := readDirectives cs
  let (selections, rest) ← readSelections (readSelection cs.length) cs
  return (⟨name, condition, directives, selections⟩, rest)

def readDefinition (cs : List Char) : Option (Definition × List Char) :=
  ((readOperation cs).map fun (o, rest) => (.operation o, rest)).or
    ((readFragment cs).map fun (f, rest) => (.fragment f, rest))

def Document.parse (text : String) : Except DocumentError Document :=
  let (definitions, rest) := readMany readDefinition text.length text.toList
  if definitions.isEmpty || !(skip rest).isEmpty then .error .notWellFormed
  else Document.ofDefinitions definitions

end ODataGraph.Graphql
