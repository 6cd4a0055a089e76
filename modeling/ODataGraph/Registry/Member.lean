import ODataGraph.Registry.Descriptor
import ODataGraph.Csdl.Document

/-! The types of a document by themselves, and the fields that their members and the functions bound
to them amount to. -/

namespace ODataGraph.Types

open Csdl (StructuredType Member Function Parameter TypeRef)

/-- A type of the document, if there is a scalar or a registered type for it. -/
def resolve? (ts : Types) (type : String) : Option TypeReference :=
  let ref := TypeRef.parse type
  let element? : Option TypeReference := match Scalar.ofPrimitive? ref.qualifiedName with
    | some s => some (.scalar s)
    | none => if ts.contains ref.localName then some (.named ref.localName) else none
  element?.map fun element => if ref.isCollection then .list element else element

/-- The values of an enum; a member without a value has that of its position. -/
def enumValues (members : List Csdl.EnumMember) : List EnumValue :=
  members.zipIdx.map fun (m, i) =>
    ⟨m.name, m.value.getD (String.ofList (Nat.toDigits 10 i))⟩

def addEnum (service : Service) (ts : Types) (t : Csdl.EnumType) : Types :=
  ts.insert t.name (.enum { name := service.typeName t.name, values := enumValues t.members })

def rawValue : Field :=
  { type := .scalar .string, kind := .rawValue, description := "Raw Value" }

/-- A structured type as an object with nothing but its raw value. -/
def addObject (service : Service) (ts : Types) (t : StructuredType) : Types :=
  let fields := (∅ : OrderedMap String Field).insert rawValueField rawValue
  ts.insert t.name (.object { name := service.typeName t.name, service, fields })

def memberField? (ts : Types) (m : Member) : Option (String × Field) :=
  let kind : FieldKind := match m.kind with
    | .property => .property
    | .navigation => .navigation
  (ts.resolve? m.type).map fun type => (m.name, { type, kind })

/-- Adds fields to the object of a type. A name that the object has keeps its field. -/
def addFields (ts : Types) (key : String) (fields : List (String × Field)) : Types :=
  ts.modifyObject key fun o => fields.foldl (fun o (name, f) => o.addNewField name f) o

/-- A field for every member whose type can be represented. -/
def addMembers (ts : Types) (t : StructuredType) : Types :=
  ts.addFields t.name (t.members.filterMap ts.memberField?)

def isBindingName (name : String) : Bool :=
  let lower := Text.lowerCase name
  lower == "bindingparameter" || lower == "bindparameter"

def bindingParameter? (f : Function) : Option Parameter :=
  f.parameters.find? fun p => isBindingName p.name

def argument? (ts : Types) (p : Parameter) : Option (String × Argument) :=
  (ts.resolve? p.type).map fun type =>
    (p.name, { type := if p.nullable then type else .nonNull type })

/-- A function as a field: its parameters, less those of the binding one's name, are arguments. -/
def functionField? (ts : Types) (f : Function) (binding : String) : Option (String × Field) := do
  let type ← ts.resolve? (← f.returnType)
  let arguments ← (f.parameters.filter (·.name != binding)).mapM ts.argument?
  return (f.name, { type, kind := .function, arguments := .ofList arguments })

/-- The key of the type that a function is bound to. Functions bound to a collection go to a key
that no type should have. -/
def ownerKey (binding : Parameter) : String :=
  let ref := TypeRef.parse binding.type
  if ref.isCollection then "List<" ++ ref.localName ++ ">" else ref.localName

def boundFields (ts : Types) (functions : List Function) : List (String × String × Field) :=
  (functions.filter (·.isBound)).filterMap fun f => do
    let binding ← bindingParameter? f
    return (ownerKey binding, ← ts.functionField? f binding.name)

/-- Every type gets the functions bound to it, except those whose name it already has. Functions
with the same owner come together, owners in the order of their first function. -/
def addFunctions (ts : Types) (functions : List Function) : Types :=
  let bound := ts.boundFields functions
  (bound.map Prod.fst).eraseDups.foldl (fun ts owner =>
    ts.addFields owner ((bound.filter (·.1 == owner)).map Prod.snd)) ts

end ODataGraph.Types
