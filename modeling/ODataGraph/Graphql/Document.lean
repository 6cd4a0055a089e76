import ODataGraph.Json.Literal
import ODataGraph.OrderedMap

/-! GraphQL documents, as far as they are executed. -/

namespace ODataGraph.Graphql

/-- A number has no value if it is out of range. -/
inductive Value where
  | variable (name : String)
  | number (value? : Option Json.Number)
  | string (text : String)
  | bool (value : Bool)
  | null
  | enum (name : String)
  | list (items : List Value)
  | object (members : List (String × Value))
  deriving Inhabited

structure Directive where
  name : String
  arguments : List (String × Value) := []

inductive VariableType where
  | named (name : String) (nullable : Bool)
  | list (element : VariableType) (nullable : Bool)
  deriving DecidableEq

def VariableType.isNullable : VariableType → Bool
  | .named _ nullable => nullable
  | .list _ nullable => nullable

structure VariableDefinition where
  name : String
  type : VariableType
  directives : List Directive := []
  /-- Holds no variables. -/
  default : Option Value := none

/-- What is selected in a list of selections. A field without subfields has no selections. -/
inductive Selection where
  | field (responseKey name : String) (arguments : List (String × Value))
      (directives : List Directive) (selections : List Selection)
  | inline (condition : Option String) (directives : List Directive) (selections : List Selection)
  | spread (name : String) (directives : List Directive)
  deriving Inhabited

inductive OperationKind where
  | query
  | mutation
  | subscription
  deriving DecidableEq

structure OperationDefinition where
  kind : OperationKind
  name : Option String := none
  variableDefinitions : List VariableDefinition := []
  directives : List Directive := []
  selections : List Selection

structure Fragment where
  name : String
  condition : String
  directives : List Directive := []
  selections : List Selection

inductive Definition where
  | operation (definition : OperationDefinition)
  | fragment (definition : Fragment)

/-- The operations of a document: one without a name, or any number with names. -/
inductive Operations where
  | anonymous (operation : OperationDefinition)
  | named (operations : OrderedMap String OperationDefinition)

structure Document where
  operations : Operations
  fragments : OrderedMap String Fragment

inductive DocumentError where
  | notWellFormed
  | tooDeep
  | multipleOperations
  | duplicateOperation (name : String)
  | duplicateFragment (name : String)
  | noOperation
  deriving DecidableEq

def DocumentError.message : DocumentError → String
  | .notWellFormed => "syntax error"
  | .tooDeep => "recursion limit exceeded."
  | .multipleOperations => "document contains multiple operations"
  | .duplicateOperation name => "operation " ++ name ++ " is defined twice"
  | .duplicateFragment name => "fragment " ++ name ++ " is defined twice"
  | .noOperation => "document does not contain an operation"

/-! Limits. A number out of range, or a selection too deep, is found before anything else that is
wrong with well-formed definitions, and the first of them counts. -/

mutual

def Value.check : Value → Except DocumentError Unit
  | .number value? => if value?.isSome then .ok () else .error .notWellFormed
  | .list items => Value.checkItems items
  | .object members => Value.checkMembers members
  | _ => .ok ()

def Value.checkItems : List Value → Except DocumentError Unit
  | [] => .ok ()
  | item :: items => do
    Value.check item
    Value.checkItems items

def Value.checkMembers : List (String × Value) → Except DocumentError Unit
  | [] => .ok ()
  | (_, value) :: members => do
    Value.check value
    Value.checkMembers members

end

def Directive.check (ds : List Directive) : Except DocumentError Unit :=
  ds.forM fun d => Value.checkMembers d.arguments

def VariableDefinition.check (v : VariableDefinition) : Except DocumentError Unit := do
  Directive.check v.directives
  if let some value := v.default then value.check

/-- How deep selections may nest below those of an operation or a fragment. -/
def maxDepth : Nat := 64

mutual

/-- Selections nest at most `depth` deep below this one. -/
def Selection.check (depth : Nat) : Selection → Except DocumentError Unit
  | .field _ _ arguments directives selections => do
    Value.checkMembers arguments
    Directive.check directives
    if selections.isEmpty then return
    if depth = 0 then throw .tooDeep
    Selection.checkAll (depth - 1) selections
  | .inline _ directives selections => do
    Directive.check directives
    if depth = 0 then throw .tooDeep
    Selection.checkAll (depth - 1) selections
  | .spread _ directives => Directive.check directives

def Selection.checkAll (depth : Nat) : List Selection → Except DocumentError Unit
  | [] => .ok ()
  | s :: rest => do
    Selection.check depth s
    Selection.checkAll depth rest

end

def Definition.check : Definition → Except DocumentError Unit
  | .operation o => do
    o.variableDefinitions.forM VariableDefinition.check
    Directive.check o.directives
    Selection.checkAll maxDepth o.selections
  | .fragment f => do
    Directive.check f.directives
    Selection.checkAll maxDepth f.selections

namespace Operations

/-- Adds an operation to those before it. Only an operation with a name can have others beside
it. -/
def add (o : OperationDefinition) : Option Operations → Except DocumentError Operations
  | none =>
    .ok (match o.name with
      | some name => .named (OrderedMap.empty.insert name o)
      | none => .anonymous o)
  | some (.anonymous _) => .error .multipleOperations
  | some (.named operations) =>
    match o.name with
    | some name =>
      if operations.contains name then .error (.duplicateOperation name)
      else .ok (.named (operations.insert name o))
    | none => .error .multipleOperations

end Operations

namespace Document

def collect : Option Operations → OrderedMap String Fragment → List Definition →
    Except DocumentError Document
  | some operations, fragments, [] => .ok ⟨operations, fragments⟩
  | none, _, [] => .error .noOperation
  | operations, fragments, .operation o :: rest => do
    collect (some (← Operations.add o operations)) fragments rest
  | operations, fragments, .fragment f :: rest =>
    if fragments.contains f.name then .error (.duplicateFragment f.name)
    else collect operations (fragments.insert f.name f) rest

def ofDefinitions (definitions : List Definition) : Except DocumentError Document := do
  definitions.forM Definition.check
  collect none ∅ definitions

end Document

end ODataGraph.Graphql
