import ODataGraph.Json.Basic
import ODataGraph.OrderedMap
import ODataGraph.Registry.Scalar

/-! The types of a service as they are exposed: enums, objects and unions. -/

namespace ODataGraph

/-- What a field or an argument holds. Enums, objects and unions are named by their registry key. -/
inductive TypeReference where
  | scalar (type : Scalar)
  | named (key : String)
  | list (element : TypeReference)
  | nonNull (type : TypeReference)
  deriving DecidableEq, Inhabited

namespace TypeReference

/-- The type within all lists and non-null marks. -/
def underlying : TypeReference → TypeReference
  | .list t => t.underlying
  | .nonNull t => t.underlying
  | t => t

def key? (t : TypeReference) : Option String :=
  match t.underlying with
  | .named key => some key
  | _ => none

def isList : TypeReference → Bool
  | .list _ => true
  | .nonNull t => t.isList
  | _ => false

/-- The type as it is written, its names chosen by `nameOf`. -/
def write (nameOf : String → String) : TypeReference → String
  | .scalar s => s.name
  | .named key => nameOf key
  | .list t => "[" ++ t.write nameOf ++ "]"
  | .nonNull t => t.write nameOf ++ "!"

end TypeReference

structure Directive where
  name : String
  arguments : OrderedMap String Json := ∅
  deriving BEq

structure Argument where
  type : TypeReference
  description : Option String := none
  deriving DecidableEq

/-- Where the value of a field comes from. -/
inductive FieldKind where
  /-- The entity's data; null if absent there. -/
  | property
  /-- The entity's data, or a request below the entity's URL if it is absent there. -/
  | navigation
  | entitySet
  | singleton
  | function
  | rawValue
  /-- Nowhere: it stands in objects that have no other field. -/
  | placeholder
  deriving DecidableEq, Inhabited

structure Field where
  type : TypeReference
  kind : FieldKind
  description : Option String := none
  arguments : OrderedMap String Argument := ∅
  directives : List Directive := []
  deriving BEq

/-- A service: the label that its names begin with, and where it is. -/
structure Service where
  label : String
  baseUrl : String
  deriving DecidableEq, Inhabited

def Service.typeName (s : Service) (name : String) : String := s.label ++ "_" ++ name

structure ObjectType where
  name : String
  service : Service
  description : Option String := none
  fields : OrderedMap String Field := ∅
  expandable : Bool := true
  selectable : Bool := true
  /-- The query options of fields that list this type. -/
  arguments : OrderedMap String Argument := ∅
  directives : List Directive := []
  deriving BEq

/-- Whether a field comes from the metadata, and not from this library. -/
def Field.isDeclared (f : Field) : Bool := f.kind ≠ .rawValue && f.kind ≠ .placeholder

def ObjectType.hasDeclaredFields (o : ObjectType) : Bool := o.fields.values.any Field.isDeclared

structure UnionType where
  name : String
  description : Option String := none
  members : List String
  directives : List Directive := []
  deriving BEq

structure EnumValue where
  name : String
  value : String
  deriving DecidableEq

structure EnumType where
  name : String
  description : Option String := none
  values : List EnumValue
  directives : List Directive := []
  deriving BEq

inductive Descriptor where
  | enum (type : EnumType)
  | object (type : ObjectType)
  | union (type : UnionType)
  deriving BEq

namespace Descriptor

def name : Descriptor → String
  | .enum t => t.name
  | .object t => t.name
  | .union t => t.name

def description : Descriptor → Option String
  | .enum t => t.description
  | .object t => t.description
  | .union t => t.description

def object? : Descriptor → Option ObjectType
  | .object t => some t
  | _ => none

@[simp] theorem object?_eq_some_iff {t : Descriptor} {o : ObjectType} :
    t.object? = some o ↔ t = .object o := by
  cases t <;> simp [object?]

/-- Whether values of the type have fields to select. -/
def isComposite : Descriptor → Bool
  | .enum _ => false
  | _ => true

end Descriptor

abbrev Types := OrderedMap String Descriptor

/-- What a union's name is followed by in the key of the object with the fields of the type that
the union stands for. -/
def baseEnding : String := "_Base"

def baseKey (key : String) : String := key ++ baseEnding

def rawValueField : String := "_value"

def placeholderField : String := "Placeholder"

namespace Types

/-- The key of the object with the fields of a type: its own, or that of the base variant of a
union. Enums have none. -/
def fieldsKey? (ts : Types) (key : String) : Option String :=
  match ts.get? key with
  | some (.object _) => some key
  | some (.union _) => some (baseKey key)
  | _ => none

def object? (ts : Types) (key : String) : Option ObjectType := do
  (← ts.get? (← ts.fieldsKey? key)).object?

def modifyObject (ts : Types) (key : String) (f : ObjectType → ObjectType) : Types :=
  match ts.fieldsKey? key with
  | some key => ts.modify key fun
    | .object o => .object (f o)
    | other => other
  | none => ts

end Types

def ObjectType.addNewField (o : ObjectType) (name : String) (f : Field) : ObjectType :=
  { o with fields := o.fields.insertNew name f }

end ODataGraph
