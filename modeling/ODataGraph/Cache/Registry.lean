import ODataGraph.Cache.Document
import ODataGraph.Registry.Build

/-! Registries of services, each built once. -/

namespace ODataGraph

/-- Registries, and the documents they are built from, by the base URL of their service. -/
structure RegistryCache where
  documents : DocumentCache := {}
  registries : Slots Registry := {}

namespace RegistryCache

/-- The registry of a service, built unless its cell is filled. The label and the augmentation only
count when it is built. Failures are not kept. -/
def getOrBuild (c : RegistryCache) (client : Http.Client) (service : Service)
    (augmentation : Option Augmentation := none) : Except SchemaError Registry × RegistryCache :=
  let (cell, registries) := c.registries.take service.baseUrl
  match registries.content? cell with
  | some r => (.ok r, { c with registries })
  | none =>
    let (document, documents) := DocumentCache.get c.documents client service.baseUrl
    match document.bind fun d => Registry.build service d augmentation with
    | .ok r => (.ok r, { documents, registries := registries.fill cell r })
    | .error e => (.error e, { documents, registries })

def get? (c : RegistryCache) (baseUrl : String) : Option Registry := c.registries.get? baseUrl

def require (c : RegistryCache) (baseUrl : String) : Except SchemaError Registry :=
  match c.get? baseUrl with
  | some r => .ok r
  | none => .error (.unknownBaseUrl baseUrl)

def invalidate (c : RegistryCache) (baseUrl : String) : RegistryCache where
  documents := DocumentCache.forget c.documents baseUrl
  registries := c.registries.remove baseUrl

end RegistryCache

end ODataGraph
