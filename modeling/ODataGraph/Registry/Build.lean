import ODataGraph.Registry.Basic
import ODataGraph.Registry.Inheritance
import ODataGraph.Registry.Member
import ODataGraph.Registry.Placeholder
import ODataGraph.Registry.Root

/-! Making the registry of a service from its metadata document. -/

namespace ODataGraph

/-- A change that a host makes to every type, the roots included, before a registry is used. -/
abbrev Augmentation := Descriptor → Descriptor

namespace Types

/-- All types without annotations. Unions come before fields, so that fields are placed on base
variants; fields are inherited once all are placed; and only then is it known what is empty. -/
def ofDocument (service : Service) (d : Csdl.Document) (h : Hierarchy) : Types :=
  let enums := d.enumTypes.foldl (addEnum service) ∅
  let objects := d.structuredTypes.foldl (addObject service) enums
  let unions := h.addUnions service objects
  let members := d.structuredTypes.foldl addMembers unions
  let functions := members.addFunctions d.functions
  (h.inheritFields functions).settleEmpty

end Types

namespace Registry

def augmentRoot (a : Augmentation) (root : ObjectType) : ObjectType :=
  ((a (.object root)).object?).getD root

def augment (a : Augmentation) (r : Registry) : Registry :=
  { r with
    types := r.types.map fun _ t => a t
    queryRoot := augmentRoot a r.queryRoot
    mutationRoot := augmentRoot a r.mutationRoot }

def plain (service : Service) (d : Csdl.Document) : Except SchemaError Registry := do
  let h ← Hierarchy.ofTypes d.structuredTypes
  let types := (Types.ofDocument service d h).map (Descriptor.annotate d)
  let roots := Roots.ofContainer d types
  return {
    service, types
    entitySets := roots.entitySets
    queryRoot := .queryRoot service roots.fields
    mutationRoot := .mutationRoot service }

def build (service : Service) (d : Csdl.Document) (augmentation : Option Augmentation := none) :
    Except SchemaError Registry :=
  (plain service d).map fun r => (augmentation.map (augment · r)).getD r

/-- The names of all types that an augmentation sees, in that order. -/
def augmentedNames (r : Registry) : List String :=
  r.types.values.map Descriptor.name ++ [r.queryRoot.name, r.mutationRoot.name]

end Registry

end ODataGraph
