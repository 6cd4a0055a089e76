import ODataGraph.Cache.Slots
import ODataGraph.Registry.Error
import ODataGraph.Text.Utf8

/-! Metadata documents of services, each fetched once. -/

namespace ODataGraph

namespace Csdl

def metadataUrl (baseUrl : String) : String := Text.trimEndSlashes baseUrl ++ "/$metadata"

def Document.fetch (client : Http.Client) (baseUrl : String) : Except SchemaError Document := do
  let url := metadataUrl baseUrl
  let response ← (client { url }).mapError (.metadataFetch url)
  if !response.status.isSuccess then throw (.metadataStatus url response.status)
  (Document.parse (Text.Utf8.decodeLossy response.body)).mapError (.metadataParse url)

end Csdl

abbrev DocumentCache := Slots Csdl.Document

namespace DocumentCache

/-- The document of a service, fetched unless its cell is filled. Failures are not kept. -/
def get (c : DocumentCache) (client : Http.Client) (baseUrl : String) :
    Except SchemaError Csdl.Document × DocumentCache :=
  let (cell, c) := c.take baseUrl
  match c.content? cell with
  | some d => (.ok d, c)
  | none =>
    match Csdl.Document.fetch client baseUrl with
    | .ok d => (.ok d, c.fill cell d)
    | .error e => (.error e, c)

def forget (c : DocumentCache) (baseUrl : String) : DocumentCache := c.remove baseUrl

end DocumentCache

end ODataGraph
