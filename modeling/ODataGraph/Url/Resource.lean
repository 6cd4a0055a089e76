import ODataGraph.Json.Printer
import ODataGraph.OrderedMap
import ODataGraph.Text.Blank
import ODataGraph.Text.Percent

/-!
URLs of resources. A GraphQL name cannot have a dollar sign, so that a leading underscore stands
for one: `_top` is the query option `$top`, `_value` the segment `$value`. Parameters named like
that are query options, the others arguments in parentheses.
-/

namespace ODataGraph.Url

/-- Whether a segment has parentheses without arguments too. -/
inductive CallStyle where
  | segment
  | function
  deriving DecidableEq

/-- A name with its leading underscore as a dollar sign. -/
def systemName (name : String) : String :=
  match name.toList with
  | '_' :: rest => "$" ++ Text.Percent.encode (String.ofList rest)
  | _ => Text.Percent.encode name

/-- The text of a query option's value: a string as it is, anything else as JSON. -/
def optionText : Json → String
  | .string s => s
  | value => value.print

def doubleQuotes (s : String) : String :=
  String.ofList (s.toList.flatMap fun c => if c = '\x27' then ['\x27', '\x27'] else [c])

/-- A value among the arguments of a call: a string between quotes, with its quotes doubled. -/
def argumentText : Json → String
  | .string s => "'" ++ Text.Percent.encode (doubleQuotes s) ++ "'"
  | value => Text.Percent.encode value.print

def isSystem (name : String) : Bool := name.toList.head? = some '_'

def queryOption (name : String) (value : Json) : String :=
  systemName name ++ "=" ++ Text.Percent.encode (optionText value)

def argument (name : String) (value : Json) : String :=
  Text.Percent.encode name ++ "=" ++ argumentText value

/-- The properties of a selection, to which the id belongs. -/
def selected (select : List String) : List String := (select ++ ["id"]).eraseDups

def selectOption (select : List String) : String :=
  "$select=" ++ String.intercalate "," ((selected select).map Text.Percent.encode)

/-- What a call adds to its resource, with the values that are null left out. -/
def segment (key : String) (parameters : OrderedMap String Json) (call : CallStyle)
    (select : Option (List String)) : String :=
  let given := parameters.entries.filter fun p => !p.2.isNull
  let arguments := (given.filter fun p => !isSystem p.1).map fun p => argument p.1 p.2
  let options := (given.filter fun p => isSystem p.1).map fun p => queryOption p.1 p.2
  let options := options ++ select.toList.map selectOption
  systemName key ++
    (if call = .function ∨ !arguments.isEmpty then "(" ++ String.intercalate "," arguments ++ ")"
      else "") ++
    if options.isEmpty then "" else "?" ++ String.intercalate "&" options

def under (resource key : String) (parameters : OrderedMap String Json) (call : CallStyle)
    (select : Option (List String)) : String :=
  Text.trimEndSlashes resource ++ "/" ++ segment key parameters call select

end ODataGraph.Url
