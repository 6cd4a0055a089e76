import ODataGraph.Csdl.Document
import ODataGraph.Xml.Tree

/-!
Reading metadata documents. Elements count wherever they stand and whatever namespace they are in;
those that mean nothing here are passed over.
-/

namespace ODataGraph.Csdl

open Xml (Node)

inductive ReadError where
  | notWellFormed
  | missingAttribute (element attributeName : String)
  deriving DecidableEq, Repr

def ReadError.message : ReadError → String
  | .notWellFormed => "metadata document is not well-formed XML"
  | .missingAttribute element name =>
    "<" ++ element ++ "> element is missing the required '" ++ name ++ "' attribute"

def required (n : Node) (name : String) : Except ReadError String :=
  match n.attribute? name with
  | some value => .ok value
  | none => .error (.missingAttribute n.name name)

def flag (n : Node) (name : String) (default : Bool) : Bool :=
  ((n.attribute? name).map (Text.eqIgnoringAsciiCase · "true")).getD default

def constants (n : Node) (except : List String) : OrderedMap String String :=
  .ofList ((n.attributes.filter fun a => !except.contains a.name).map fun a => (a.name, a.value))

def trimmedText (n : Node) : Option String := n.text?.map Text.trimBlanks

def PropertyValue.ofNode (n : Node) : PropertyValue :=
  { attributes := constants n ["Property"]
    text := n.childElements.head?.bind trimmedText }

/-- The entries of a record. Those that name no property are passed over. -/
def recordOf (n : Node) : OrderedMap String PropertyValue :=
  .ofList ((n.childrenNamed "PropertyValue").filterMap fun v =>
    (v.attribute? "Property").map (·, PropertyValue.ofNode v))

/-- An annotation without a term says nothing. -/
def AppliedTerm.ofNode? (n : Node) : Option AppliedTerm := do
  let term ← n.attribute? "Term"
  let value := n.childElements.head?
  let isRecord := value.any (·.name == "Record")
  return {
    term := term
    attributes := constants n ["Term", "Qualifier"]
    text := if isRecord then none else value.bind trimmedText
    record := if isRecord then (value.map recordOf).getD ∅ else ∅
    raw := n.source }

def annotationsIn (n : Node) : List AppliedTerm :=
  (n.childrenNamed "Annotation").filterMap AppliedTerm.ofNode?

def EnumType.ofNode (n : Node) : Except ReadError EnumType := do
  let name ← required n "Name"
  let members ← (n.childrenNamed "Member").mapM fun m => do
    return { name := ← required m "Name", value := m.attribute? "Value" : EnumMember }
  return { name, isFlags := flag n "IsFlags" false, members }

def Member.ofNode (kind : MemberKind) (n : Node) : Except ReadError Member := do
  let name ← required n "Name"
  let type ← required n "Type"
  return { name, type, kind, nullable := flag n "Nullable" true }

def memberKind? (n : Node) : Option MemberKind :=
  if n.name = "Property" then some .property
  else if n.name = "NavigationProperty" then some .navigation
  else none

def memberNodes (n : Node) : List (MemberKind × Node) :=
  n.childElements.filterMap fun child => (memberKind? child).map (·, child)

def StructuredType.ofNode (kind : StructuredKind) (n : Node) : Except ReadError StructuredType := do
  let name ← required n "Name"
  let members ← (memberNodes n).mapM fun (kind, child) => Member.ofNode kind child
  return {
    name, kind, members
    base := n.attribute? "BaseType"
    isAbstract := flag n "Abstract" false }

def Parameter.ofNode (n : Node) : Except ReadError Parameter := do
  let name ← required n "Name"
  let type ← required n "Type"
  return { name, type, nullable := flag n "Nullable" true }

def Function.ofNode (n : Node) : Except ReadError Function := do
  let parameters ← (n.childrenNamed "Parameter").mapM Parameter.ofNode
  let name ← required n "Name"
  let returnType ← (n.childrenNamed "ReturnType").head?.mapM (required · "Type")
  return { name, isBound := flag n "IsBound" false, parameters, returnType }

def ContainerEntry.ofNode? (n : Node) : Except ReadError (Option ContainerEntry) := do
  if n.name = "EntitySet" then
    let name ← required n "Name"
    return some { kind := .entitySet, name, type := ← required n "EntityType" }
  else if n.name = "Singleton" then
    let name ← required n "Name"
    return some { kind := .singleton, name, type := ← required n "Type" }
  else return none

def containerOf (n : Node) : Except ReadError (List ContainerEntry) := do
  return (← n.childElements.mapM ContainerEntry.ofNode?).filterMap id

namespace Document

/-- Adds a structured type with the annotations in it: its own first, then those of its members. -/
def addStructured (d : Document) (kind : StructuredKind) (n : Node) :
    Except ReadError Document := do
  let type ← StructuredType.ofNode kind n
  let own := d.annotations.insertAll ⟨type.name, ""⟩ (annotationsIn n)
  let annotations := (memberNodes n).foldl (fun ts (_, child) =>
    ts.insertAll ⟨type.name, (child.attribute? "Name").getD ""⟩ (annotationsIn child)) own
  return { d with structuredTypes := d.structuredTypes ++ [type], annotations }

def addElement (d : Document) (n : Node) : Except ReadError Document := do
  match n.name with
  | "EnumType" =>
    let type ← EnumType.ofNode n
    return { d with
      enumTypes := d.enumTypes ++ [type]
      annotations := d.annotations.insertAll ⟨type.name, ""⟩ (annotationsIn n) }
  | "EntityType" => d.addStructured .entity n
  | "ComplexType" => d.addStructured .complex n
  | "Function" => return { d with functions := d.functions ++ [← Function.ofNode n] }
  | "EntityContainer" => return { d with container := d.container ++ (← containerOf n) }
  | "Annotations" =>
    match n.attribute? "Target" with
    | some path =>
      return { d with
        annotations := d.annotations.insertAll (Target.ofPath path) (annotationsIn n) }
    | none => return d
  | _ => return d

def ofNode (root : Node) : Except ReadError Document := root.elements.foldlM addElement {}

def parse (text : String) : Except ReadError Document :=
  match Xml.parse? text with
  | some root => ofNode root
  | none => .error .notWellFormed

end Document

end ODataGraph.Csdl
