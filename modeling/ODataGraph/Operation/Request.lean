import ODataGraph.Json.Record
import ODataGraph.OrderedMap

/-! Requests as clients send them. -/

namespace ODataGraph

structure RawRequest where
  query : String
  operationName : Option String := none
  bindings : OrderedMap String Json := ∅

namespace RawRequest

def bindings? : Option Json.Literal → Option (OrderedMap String Json)
  | none | some .null => some ∅
  | some (.object members) => do
    let members ← Json.Literal.members? (Json.maxDepth - 2) members
    return .ofList members
  | _ => none

def string? : Json.Literal → Option String
  | .string units => Json.StringUnit.text? units
  | _ => none

def operationName? : Option Json.Literal → Option (Option String)
  | none | some .null => some none
  | some literal => (string? literal).map some

def fieldNames : List String := ["query", "operationName", "variables"]

/-- The request that a JSON text describes. Unknown fields do not count. -/
def parse? (text : String) : Option RawRequest := do
  let fields ← (← Json.Literal.ofText? text).record? fieldNames false
  return {
    query := ← string? (← fields.lookup "query")
    operationName := ← operationName? (fields.lookup "operationName")
    bindings := ← bindings? (fields.lookup "variables") }

end RawRequest

end ODataGraph
