import ODataGraph.Cache.Registry
import ODataGraph.Execution.Resolver

/-! Services behind one query root and one mutation root. -/

namespace ODataGraph

/-- A field that the host adds to the query root. -/
structure HostField where
  name : String
  description : Option String := none
  arguments : OrderedMap String Argument := ∅
  /-- Where the service is that has the field's type. -/
  baseUrl : String
  /-- The type's key, or its GraphQL name. -/
  typeName : String
  isList : Bool := false
  /-- The value for given arguments. Objects in it are like those that the service returns. -/
  resolve : OrderedMap String Json → Except HookError Json

structure BoundHostField where
  name : String
  service : String
  field : Field
  resolve : OrderedMap String Json → Except HookError Json

structure ExposedService where
  registry : Registry
  hooks : Path → Hooks := fun _ => {}

structure Engine where
  /-- How services answer requests for the field at a path. -/
  client : Path → Http.Client
  exposure : Exposure := .censor
  /-- Holds the registries from when the engine was built. Dropping them there does not change the
  engine. -/
  cache : RegistryCache := {}
  /-- By label, which is the name of the service's root fields. -/
  services : OrderedMap String ExposedService := ∅
  hostFields : OrderedMap String BoundHostField := ∅

namespace Engine

def registry? (e : Engine) (label : String) : Option Registry :=
  (e.services.get? label).map (·.registry)

def execution (e : Engine) (s : ExposedService) (cancelled : Bool := false) : Execution :=
  { registry := s.registry, client := e.client, hooks := s.hooks, cancelled
    exposure := e.exposure }

end Engine

inductive RootKind where
  | query
  | mutation
  deriving DecidableEq

def RootKind.typeName : RootKind → String
  | .query => "Query"
  | .mutation => "Mutation"

def ExposedService.root (s : ExposedService) : RootKind → ObjectType
  | .query => s.registry.queryRoot
  | .mutation => s.registry.mutationRoot

end ODataGraph
