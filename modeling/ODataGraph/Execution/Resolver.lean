import ODataGraph.Execution.Hook
import ODataGraph.Url.Resource
import ODataGraph.Url.Validity

/-!
Resolving as a computation: it may end with an error, and whether it does or not it leaves a record
of what happened on the way.
-/

namespace ODataGraph

inductive Event where
  | parse (context : ParseContext)
  | ask (context : RequestContext) (url : String)
  | send (path : Path) (request : Http.Request)
  /-- An error is listed, and its field becomes null. -/
  | fail (error : GraphQLError)

/-- Events, oldest first. -/
abbrev Log := List Event

def Log.errors (log : Log) : List GraphQLError :=
  log.filterMap fun
    | .fail e => some e
    | _ => none

abbrev Resolver := ExceptT FieldError (StateM Log)

/-- What the fields of one service are resolved with. Services and hooks are asked for the field at
a path, and may answer the same question differently for another field. -/
structure Execution where
  registry : Registry
  client : Path → Http.Client
  hooks : Path → Hooks := fun _ => {}
  cancelled : Bool := false
  exposure : Exposure := .censor
  headers : List (String × String) := []

namespace Resolver

def log (e : Event) : Resolver Unit := modify (· ++ [e])

def lift (r : Except FieldError α) : Resolver α := ExceptT.mk (pure r)

/-- Lists a recoverable error at a path, and gives null in its place. -/
def recover (exposure : Exposure) (path : Path) (r : Resolver Json) : Resolver Json :=
  tryCatch r fun e =>
    if e.isRecoverable then do
      log (.fail (e.toGraphQL exposure (some path)))
      return .null
    else throw e

end Resolver

namespace Execution

open Resolver (log lift)

def service (x : Execution) : Service := x.registry.service

def preParse (x : Execution) (path : Path) (fieldName typeName : String) : Resolver Unit := do
  let some hook := (x.hooks path).preParse | return
  let context : ParseContext := ⟨x.service, fieldName, typeName⟩
  log (.parse context)
  lift ((hook context).mapError .hook)

def preRequest (x : Execution) (path : Path) (fieldName : String) (request : Http.Request) :
    Resolver (Option Http.Request) := do
  let some hook := (x.hooks path).preRequest | return some request
  let context : RequestContext := ⟨x.service, fieldName⟩
  log (.ask context request.url)
  lift ((hook context request).mapError .hook)

/-- The answer to a GET request, or nothing if the hook dropped it. -/
def get (x : Execution) (path : Path) (fieldName url : String) : Resolver (Option Payload) := do
  let some request ← x.preRequest path fieldName { url, headers := x.headers } | return none
  if !Url.isValid request.url then throw (.invalidUrl request.url)
  if x.cancelled then throw .cancelled
  log (.send path request)
  let response ← lift ((x.client path request).mapError .transport)
  return some (← lift (Payload.ofResponse request.url response))

end Execution

end ODataGraph
