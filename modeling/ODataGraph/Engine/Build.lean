import ODataGraph.Engine.Basic
import ODataGraph.Engine.Config

/-!
Building an engine: first the registries of all services, then the types of host fields, which are
found in them.
-/

namespace ODataGraph

inductive BuildError where
  | services (error : ServicesError)
  /-- The sender's name of the configuration cannot be sent. -/
  | client
  | schema (error : SchemaError)
  | duplicateRootField (name : String)
  | invalidFieldName (name : String)

namespace BuildError

def message : BuildError → String
  | .services error => error.message
  | .client => "unable to create the HTTP client"
  | .schema error => "unable to build the schema: " ++ error.message
  | .duplicateRootField name => "the root field " ++ name ++ " is declared more than once"
  | .invalidFieldName name =>
    "the host field name " ++ Text.Quoted.encode name ++ " is not a valid GraphQL name"

def visibility : BuildError → Visibility
  | .client => .internal
  | .schema error => error.visibility
  | _ => .user

end BuildError

/-- A service to expose, with what the host adds to it. -/
structure ServiceDefinition where
  service : Service
  hooks : Hooks := {}
  augmentation : Option Augmentation := none

structure Blueprint where
  client : Http.Client
  services : List ServiceDefinition := []
  hostFields : List HostField := []
  exposure : Exposure := .censor

namespace Blueprint

def ofConfig (c : Config) (client : Http.Client) : Except BuildError Blueprint :=
  match c.client? client with
  | some client =>
    .ok { client, services := c.services.map fun s => { service := s }, exposure := c.exposure }
  | none => .error .client

/-- The registries of services, in their order. The first failure ends it. -/
def registries (client : Http.Client) (cache : RegistryCache) :
    List ServiceDefinition →
      Except SchemaError (List (ServiceDefinition × Registry) × RegistryCache)
  | [] => .ok ([], cache)
  | d :: rest => do
    let (r, cache) := cache.getOrBuild client d.service d.augmentation
    let r ← r
    let (built, cache) ← registries client cache rest
    return ((d, r) :: built, cache)

end Blueprint

namespace HostField

def typeKey (h : HostField) (r : Registry) : Except SchemaError String :=
  if r.types.contains h.typeName then .ok h.typeName
  else match r.findByName? h.typeName with
    | some (key, _) => .ok key
    | none => .error (.unknownType h.baseUrl h.typeName)

def bindTo (h : HostField) (r : Registry) : Except SchemaError BoundHostField := do
  let type := TypeReference.named (← h.typeKey r)
  return {
    name := h.name
    service := r.service.label
    field := {
      type := if h.isList then .list type else type
      kind := .property
      description := h.description
      arguments := h.arguments }
    resolve := h.resolve }

end HostField

namespace Engine

def addHostField (e : Engine) (h : HostField) : Except BuildError Engine := do
  if !Graphql.isFieldName h.name then throw (.invalidFieldName h.name)
  if e.services.contains h.name || e.hostFields.contains h.name then
    throw (.duplicateRootField h.name)
  let bound ← (e.cache.require h.baseUrl >>= h.bindTo).mapError .schema
  return { e with hostFields := e.hostFields.insert h.name bound }

def build (b : Blueprint) : Except BuildError Engine := do
  (Service.validate (b.services.map (·.service))).mapError .services
  let (built, cache) ← (Blueprint.registries b.client {} b.services).mapError .schema
  let e : Engine := {
    client := fun _ => b.client
    exposure := b.exposure
    cache
    services := .ofList (built.map fun (d, registry) =>
      (d.service.label, { registry, hooks := fun _ => d.hooks })) }
  b.hostFields.foldlM addHostField e

end Engine

end ODataGraph
