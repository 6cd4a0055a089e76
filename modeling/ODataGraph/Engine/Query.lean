import ODataGraph.Execution.Resolve
import ODataGraph.Execution.Response
import ODataGraph.Operation.Root

/-! Executing requests, and calling functions of services. -/

namespace ODataGraph

/-- What happens while a request is executed, apart from errors: these are in the response. -/
inductive EngineEvent where
  | service (event : Event)
  | host (fieldName : String) (arguments : OrderedMap String Json)

inductive CallError where
  | unknownService (label : String)
  | field (error : FieldError)

def CallError.message : CallError → String
  | .unknownService label => "no OData service with the prefix " ++ label
  | .field error => error.message

def CallError.visibility : CallError → Visibility
  | .unknownService _ => .user
  | .field error => error.visibility

structure RootResult where
  value : Json
  errors : List GraphQLError := []
  events : List EngineEvent := []

namespace RootResult

/-- The result of resolving a root field at its path. The error that ended it comes after those
that were listed before. -/
def ofResolver (exposure : Exposure) (path : Path) (run : Resolver Json) : RootResult :=
  let (result, log) := run.run.run []
  match result with
  | .ok value => { value, errors := log.errors, events := log.map .service }
  | .error e => {
      value := .null
      errors := log.errors ++ [e.toGraphQL exposure (some path)]
      events := log.map .service }

end RootResult

namespace Engine

def rootValue (e : Engine) (cancelled : Bool) (kind : RootKind) (f : RootField) (path : Path) :
    Resolver Json :=
  match f.target with
  | .typename => return .string kind.typeName
  | .service s =>
    let x := e.execution s cancelled
    match kind with
    | .query => x.resolveQueryRoot f.fields path
    | .mutation => x.resolveMutationRoot f.fields path
  | .host h s => do
    let value ← Resolver.lift ((h.resolve f.arguments).mapError .hook)
    (e.execution s cancelled).resolveValue h.field.type value f.fields path

/-- What a root field comes to. Every root field has errors of its own. -/
def resolveRootField (e : Engine) (cancelled : Bool) (kind : RootKind) (f : RootField) :
    RootResult :=
  let path : Path := [.field f.responseKey]
  let result := RootResult.ofResolver e.exposure path (e.rootValue cancelled kind f path)
  match f.target with
  | .host h _ => { result with events := .host h.name f.arguments :: result.events }
  | _ => result

/-- The response to an operation, with what happened on the way. Of root fields with one response
key the last one's value counts, in the place of the first. -/
def resolveOperation (e : Engine) (cancelled : Bool) (operation : Operation) :
    Response × List EngineEvent :=
  let results := operation.fields.map fun f =>
    (f.responseKey, e.resolveRootField cancelled operation.kind f)
  ({ data := some (Json.Members.ofList (results.map fun (name, r) => (name, r.value)))
     errors := results.flatMap (·.2.errors) },
    results.flatMap (·.2.events))

/-- The answer to a request. There is none if normalizing it has no end. -/
def execute (e : Engine) (request : RawRequest) (cancelled : Bool := false) :
    Option (Response × List EngineEvent) :=
  (Operation.ofRequest e request).run.map fun
    | .error error => (.requestError error.message, [])
    | .ok operation => e.resolveOperation cancelled operation

/-- Calls a function of a service, outside of any request. -/
def call (e : Engine) (label function : String) (parameters : OrderedMap String Json)
    (firstOnly : Bool) : Except CallError Json × List EngineEvent :=
  match e.services.get? label with
  | none => (.error (.unknownService label), [])
  | some s =>
    let (result, log) := ((e.execution s).callFunction function parameters firstOnly).run.run []
    (result.mapError .field, log.map .service)

end Engine

end ODataGraph
