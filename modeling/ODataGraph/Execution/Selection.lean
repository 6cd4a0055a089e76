import ODataGraph.Json.Basic
import ODataGraph.OrderedMap

/-! Selections without fragments and variables. -/

namespace ODataGraph

/-- What a fragment requires of the object that its fields are selected on. -/
structure TypeCondition where
  typeName : String
  /-- The keys of the objects that satisfy it. -/
  possibleTypes : List String
  deriving DecidableEq

structure Selection where
  responseKey : String
  name : String
  arguments : OrderedMap String Json := ∅
  condition : Option TypeCondition := none
  fields : List Selection := []
  deriving Inhabited

namespace Selection

def appliesTo (s : Selection) (typeKey : String) : Bool :=
  match s.condition with
  | some c => c.possibleTypes.contains typeKey
  | none => true

end Selection

def typenameField : String := "__typename"

end ODataGraph
