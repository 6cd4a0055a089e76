import ODataGraph.Json.Printer
import ODataGraph.Registry.Basic
import ODataGraph.Text.Cut

/-!
Registries in the GraphQL schema definition language. Directives are printed as they are used;
their definitions are left to the host that attached them.
-/

namespace ODataGraph

namespace Sdl

/-- Keeps three quotes in a row from ending a block string. -/
def escapeQuotes : List Char → List Char
  | '"' :: '"' :: '"' :: cs => '\\' :: '"' :: '"' :: '"' :: escapeQuotes cs
  | c :: cs => c :: escapeQuotes cs
  | [] => []

/-- A description as a block string, its lines indented. Empty ones are left out. -/
def description (text : Option String) (indent : String) : String :=
  match text with
  | none => ""
  | some text =>
    if text.isEmpty then ""
    else
      let line (s : String) := if s.isEmpty then "\n" else indent ++ s ++ "\n"
      let body := (Text.lines (String.ofList (escapeQuotes text.toList))).map line
      indent ++ "\"\"\"\n" ++ String.join body ++ indent ++ "\"\"\"\n"

mutual

def literal : Json → List Char
  | .array items => '[' :: literalItems items ++ [']']
  | .object members => '\x7b' :: literalMembers members ++ ['\x7d']
  | value => value.printChars

def literalItems : List Json → List Char
  | [] => []
  | [item] => literal item
  | item :: items => literal item ++ ',' :: ' ' :: literalItems items

def literalMembers : List (String × Json) → List Char
  | [] => []
  | [(name, value)] => name.toList ++ ':' :: ' ' :: literal value
  | (name, value) :: members =>
    name.toList ++ ':' :: ' ' :: literal value ++ ',' :: ' ' :: literalMembers members

end

def directive (d : Directive) : String :=
  let arguments := String.ofList (literalMembers d.arguments.entries)
  " @" ++ d.name ++ if d.arguments.isEmpty then "" else "(" ++ arguments ++ ")"

def directives (ds : List Directive) : String := String.join (ds.map directive)

def openBrace : String := "\x7b"

def closeBrace : String := "\x7d"

def block (head : String) (lines : List String) : String :=
  head ++ " " ++ openBrace ++ "\n" ++ String.join lines ++ closeBrace ++ "\n"

def scalar (s : Scalar) : String := description s.description "" ++ "scalar " ++ s.name ++ "\n\n"

def scalars (ss : List Scalar) : String := String.join ((ss.filter (!·.isBuiltin)).map scalar)

def argument (r : Registry) (name : String) (a : Argument) : String :=
  description a.description "    " ++ "    " ++ name ++ ": " ++ r.writeType a.type ++ "\n"

def arguments (r : Registry) (as : OrderedMap String Argument) : String :=
  if as.isEmpty then ""
  else "(\n" ++ String.join (as.entries.map fun (name, a) => argument r name a) ++ "  )"

def field (r : Registry) (name : String) (f : Field) : String :=
  description f.description "  " ++ "  " ++ name ++ arguments r f.arguments ++ ": " ++
    r.writeType f.type ++ directives f.directives ++ "\n"

def object (r : Registry) (o : ObjectType) : String :=
  description o.description "" ++
    block ("type " ++ o.name ++ directives o.directives)
      (o.fields.entries.map fun (name, f) => field r name f)

def descriptor (r : Registry) : Descriptor → String
  | .object o => object r o
  | .enum e =>
    description e.description "" ++
      block ("enum " ++ e.name ++ directives e.directives)
        (e.values.map fun v => "  " ++ v.name ++ "\n")
  | .union u =>
    description u.description "" ++ "union " ++ u.name ++ directives u.directives ++ " = " ++
      String.intercalate " | " (u.members.map r.nameOf) ++ "\n"

def definitions (r : Registry) : String :=
  String.join (r.types.values.map fun t => descriptor r t ++ "\n") ++
    object r r.queryRoot ++ "\n" ++ object r r.mutationRoot

def schema (query mutation : String) : String :=
  block "schema" ["  query: " ++ query ++ "\n", "  mutation: " ++ mutation ++ "\n"] ++ "\n"

end Sdl

namespace Field

def types (f : Field) : List TypeReference := f.type :: f.arguments.values.map (·.type)

end Field

namespace Registry

def objects (r : Registry) : List ObjectType :=
  r.types.values.filterMap Descriptor.object? ++ [r.queryRoot, r.mutationRoot]

/-- Whether a field or an argument of any object is of a scalar type, within lists or not. -/
def usesScalar (r : Registry) (s : Scalar) : Bool :=
  r.objects.any fun o => o.fields.values.any fun f =>
    f.types.any fun t => t.underlying = .scalar s

def referencedScalars (r : Registry) : List Scalar := Scalar.defined.filter r.usesScalar

def sdl (r : Registry) : String :=
  Sdl.schema r.queryRoot.name r.mutationRoot.name ++ Sdl.scalars r.referencedScalars ++
    Sdl.definitions r

end Registry

end ODataGraph
