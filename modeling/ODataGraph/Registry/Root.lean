import ODataGraph.Registry.Capability

/-!
The roots of a service: a query field for every entity set and singleton, and no mutations. An
entity set is the home of its type if it looks like the type's plural.
-/

namespace ODataGraph

open Csdl (ContainerEntry)

def occursIn (part : List Char) : List Char → Bool
  | [] => part.isEmpty
  | c :: cs => part.isPrefixOf (c :: cs) || occursIn part cs

/-- Whether a set's name without its last three characters occurs in the name of a type. -/
def looksLikePlural (set typeName : String) : Bool :=
  3 ≤ set.length && occursIn (set.toList.take (set.length - 3)) typeName.toList

/-- The query root and the homes of types, as far as the entries of a container were added. -/
structure Roots where
  fields : OrderedMap String Field := ∅
  entitySets : OrderedMap String String := ∅

/-- The query options of fields that list a type. When the base variant of a union was left out the
annotations still decide on them. -/
def listArguments (d : Csdl.Document) (ts : Types) (key : String) : OrderedMap String Argument :=
  match ts.object? key with
  | some o => o.arguments
  | none => (d.typeCapabilities key).arguments

namespace Roots

/-- Adds a container entry, unless its type is unknown or its name taken. -/
def addEntry (d : Csdl.Document) (ts : Types) (roots : Roots) (e : ContainerEntry) : Roots :=
  let key := Csdl.localName e.type
  match ts.get? key with
  | none => roots
  | some t =>
    if roots.fields.contains e.name then roots
    else match e.kind with
      | .singleton =>
        { roots with
          fields := roots.fields.insert e.name { type := .named key, kind := .singleton } }
      | .entitySet =>
        let f : Field := {
          type := .list (.named key), kind := .entitySet, arguments := listArguments d ts key }
        { fields := roots.fields.insert e.name f
          entitySets :=
            if looksLikePlural e.name t.name then roots.entitySets.insert t.name e.name
            else roots.entitySets }

def ofContainer (d : Csdl.Document) (ts : Types) : Roots := d.container.foldl (addEntry d ts) {}

end Roots

def ObjectType.queryRoot (service : Service) (fields : OrderedMap String Field) : ObjectType :=
  { name := service.label, service, fields }

def ObjectType.mutationRoot (service : Service) : ObjectType :=
  let placeholder : Field := { type := .scalar .void, kind := .placeholder }
  { name := service.label ++ "Mutations", service
    fields := (∅ : OrderedMap String Field).insert placeholderField placeholder }

end ODataGraph
