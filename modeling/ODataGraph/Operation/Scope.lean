import ODataGraph.Execution.Selection
import ODataGraph.Operation.Error
import ODataGraph.Registry.Basic

/-! The type that fields are selected on, and how the types of fragments narrow it. -/

namespace ODataGraph

structure Scope where
  registry : Registry
  typeName : String
  /-- The object that declares the fields. Unions without a base variant have none. -/
  object : Option ObjectType
  /-- The keys of the objects that a value can be. Roots have none. -/
  possibleTypes : List String

namespace Scope

def root (r : Registry) (root : ObjectType) : Scope where
  registry := r
  typeName := root.name
  object := some root
  possibleTypes := []

def ofType? (r : Registry) (key : String) : Option Scope := do
  let type ← (r.get? key).filter Descriptor.isComposite
  return {
    registry := r
    typeName := type.name
    object := (r.concreteObject? key).map Prod.snd
    possibleTypes := r.possibleTypes key }

structure Narrowed where
  object : Option ObjectType
  possibleTypes : List String
  /-- The innermost type that differs from the scope's own. -/
  typeName : Option String

/-- Narrows to the type of one more fragment. The scope's own type changes nothing; any other must
leave something possible. -/
def narrowBy (s : Scope) (n : Narrowed) (condition : String) : Except RequestError Narrowed :=
  let invalid : Except RequestError Narrowed := .error (.invalidCondition condition s.typeName)
  if condition = s.typeName then .ok n
  else match s.registry.findByName? condition with
    | none => .error (.unknownType condition)
    | some (key, type) =>
      if type.isComposite then
        let possibleTypes :=
          n.possibleTypes.filter fun t => (s.registry.possibleTypes key).contains t
        if possibleTypes.isEmpty then invalid
        else .ok ⟨(s.registry.concreteObject? key).map Prod.snd, possibleTypes, some condition⟩
      else invalid

def narrow (s : Scope) (conditions : List String) : Except RequestError Narrowed :=
  conditions.foldlM s.narrowBy ⟨s.object, s.possibleTypes, none⟩

/-- The condition that fields carry: there is one if something in the scope is excluded. -/
def condition (s : Scope) (n : Narrowed) : Option TypeCondition := do
  let typeName ← n.typeName
  if n.possibleTypes.length < s.possibleTypes.length then some ⟨typeName, n.possibleTypes⟩
  else none

end Scope

end ODataGraph
