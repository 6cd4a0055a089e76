import ODataGraph.Registry.Descriptor

/-! The registry of all types of one service, and how types are found in it. -/

namespace ODataGraph

structure Registry where
  service : Service
  /-- By unqualified name; the object with the fields of a type that became a union stands under
  its base key. -/
  types : Types
  /-- The set that the entities of a type are in, by the type's GraphQL name. -/
  entitySets : OrderedMap String String
  /-- Has a field for every entity set and singleton. -/
  queryRoot : ObjectType
  mutationRoot : ObjectType
  deriving BEq

namespace Registry

def get? (r : Registry) (key : String) : Option Descriptor := r.types.get? key

def object? (r : Registry) (key : String) : Option ObjectType := (r.get? key).bind (·.object?)

theorem object?_eq_some_iff {r : Registry} {key : String} {o : ObjectType} :
    r.object? key = some o ↔ r.get? key = some (.object o) := by
  simp [object?, Option.bind_eq_some_iff]

/-- The object, with its key, that has the fields of values of a type. There is none for a union
whose base variant was left out. -/
def concreteObject? (r : Registry) (key : String) : Option (String × ObjectType) := do
  let objectKey ← r.types.fieldsKey? key
  return (objectKey, ← r.object? objectKey)

theorem concreteObject?_eq_some_iff {r : Registry} {key objectKey : String} {o : ObjectType} :
    r.concreteObject? key = some (objectKey, o) ↔
      r.types.fieldsKey? key = some objectKey ∧ r.object? objectKey = some o := by
  simp only [concreteObject?, Option.bind_eq_bind, Option.bind_eq_some_iff, Option.pure_def,
    Option.some.injEq, Prod.mk.injEq]
  constructor
  · rintro ⟨_, hkey, _, ho, rfl, rfl⟩
    exact ⟨hkey, ho⟩
  · rintro ⟨hkey, ho⟩
    exact ⟨_, hkey, _, ho, rfl, rfl⟩

def findByName? (r : Registry) (name : String) : Option (String × Descriptor) :=
  r.types.entries.find? fun e => e.2.name == name

def possibleTypes (r : Registry) (key : String) : List String :=
  match r.get? key with
  | some (.object _) => [key]
  | some (.union u) => u.members
  | _ => []

def name? (r : Registry) (key : String) : Option String := (r.get? key).map (·.name)

/-- The GraphQL name of a type; a key that is not registered stands for itself. -/
def nameOf (r : Registry) (key : String) : String := (r.name? key).getD key

def writeType (r : Registry) (t : TypeReference) : String := t.write r.nameOf

def isComposite (r : Registry) (key : String) : Bool := (r.get? key).any Descriptor.isComposite

end Registry

end ODataGraph
