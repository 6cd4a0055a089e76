import ODataGraph.Json.Basic
import ODataGraph.Operation.Error

/-! The values of variables, and of what is written in a document. -/

namespace ODataGraph

abbrev Bindings := OrderedMap String Json

namespace Graphql

mutual

/-- The JSON value that a value stands for. Names of enum members become strings, and of the
members of an object with one name only the last one counts. -/
def Value.evaluate (b : Bindings) : Value → Except RequestError Json
  | .variable name =>
    match b.get? name with
    | some value => .ok value
    | none => .error (.undefinedVariable name)
  | .number (some n) => .ok (.number n)
  | .number none => .error (.document .notWellFormed)
  | .string s => .ok (.string s)
  | .bool value => .ok (.bool value)
  | .null => .ok .null
  | .enum name => .ok (.string name)
  | .list items => (Value.evaluateItems b items).map .array
  | .object members => do
    let members := OrderedMap.ofList (Value.evaluateMembers b members)
    return .object (← members.entries.mapM fun (name, value) => value.map (name, ·))

def Value.evaluateItems (b : Bindings) : List Value → Except RequestError (List Json)
  | [] => .ok []
  | item :: items => do
    let value ← Value.evaluate b item
    return value :: (← Value.evaluateItems b items)

def Value.evaluateMembers (b : Bindings) :
    List (String × Value) → List (String × Except RequestError Json)
  | [] => []
  | (name, value) :: members => (name, Value.evaluate b value) :: Value.evaluateMembers b members

end

namespace OperationDefinition

/-- What a variable is bound to: the provided value, else its default, else null. -/
def bindVariable (provided : Bindings) (v : VariableDefinition) : Except RequestError Json := do
  let value ← match provided.get? v.name, v.default with
    | some value, _ => pure value
    | none, some value => value.evaluate ∅
    | none, none => pure .null
  if value.isNull ∧ !v.type.isNullable then throw (.missingVariable v.name)
  return value

/-- The bindings of all variables that an operation defines. Of definitions with one name only the
last one counts. -/
def bindVariables (o : OperationDefinition) (provided : Bindings) :
    Except RequestError Bindings :=
  o.variableDefinitions.foldlM (fun b v => do return b.insert v.name (← bindVariable provided v)) ∅

end OperationDefinition

end Graphql

end ODataGraph
