import ODataGraph.Engine.Services
import ODataGraph.Execution.Error
import ODataGraph.Execution.Payload
import ODataGraph.Json.Record

/-! Configurations, which are JSON texts. -/

namespace ODataGraph

structure Config where
  services : List Service
  userAgent : Option String := none
  requestTimeoutSecs : Option Nat := none
  otlpEndpoint : Option String := none
  serviceName : String := "odata-graphql"
  exposeInternalErrors : Bool := false
  deriving DecidableEq

inductive ConfigError where
  | unreadable (path : String)
  | malformed
  | services (error : ServicesError)
  deriving DecidableEq

def ConfigError.message : ConfigError → String
  | .unreadable path => "could not read the configuration file " ++ path
  | .malformed => "invalid configuration"
  | .services error => error.message

/-- Whoever writes a configuration sees what is wrong with it. -/
def ConfigError.visibility (_ : ConfigError) : Visibility := .user

namespace Config

/-- The value of a field that may be null, and is that if it is left out. -/
def optional? (read : Json.Literal → Option α) : Option Json.Literal → Option (Option α)
  | none => some none
  | some .null => some none
  | some literal => (read literal).map some

/-- The value of a field that has a default. -/
def defaulted? (read : Json.Literal → Option α) (default : α) : Option Json.Literal → Option α
  | none => some default
  | some literal => read literal

def string? : Json.Literal → Option String
  | .string units => Json.StringUnit.text? units
  | _ => none

def bool? : Json.Literal → Option Bool
  | .bool b => some b
  | _ => none

/-- A natural number below `2 ^ 64`, written without a point or an exponent. -/
def nat? : Json.Literal → Option Nat
  | .number n =>
    match n.value? with
    | some (.int i) => if 0 ≤ i then some i.toNat else none
    | _ => none
  | _ => none

def service? (literal : Json.Literal) : Option Service := do
  let fields ← literal.record? ["prefix", "baseUrl"] true
  return ⟨← string? (← fields.lookup "prefix"), ← string? (← fields.lookup "baseUrl")⟩

def services? : Json.Literal → Option (List Service)
  | .array items => items.mapM service?
  | _ => none

def fieldNames : List String :=
  ["services", "userAgent", "requestTimeoutSecs", "otlpEndpoint", "serviceName",
    "exposeInternalErrors"]

def ofLiteral? (literal : Json.Literal) : Option Config := do
  let fields ← literal.record? fieldNames true
  return {
    services := ← services? (← fields.lookup "services")
    userAgent := ← optional? string? (fields.lookup "userAgent")
    requestTimeoutSecs := ← optional? nat? (fields.lookup "requestTimeoutSecs")
    otlpEndpoint := ← optional? string? (fields.lookup "otlpEndpoint")
    serviceName := ← defaulted? string? "odata-graphql" (fields.lookup "serviceName")
    exposeInternalErrors := ← defaulted? bool? false (fields.lookup "exposeInternalErrors") }

/-- The configuration that a text describes, if its services can be exposed together. -/
def parse (text : String) : Except ConfigError Config := do
  let some config := (Json.Literal.ofText? text).bind ofLiteral? | throw .malformed
  (Service.validate config.services).mapError .services
  return config

/-- The configuration in a file, whose contents are absent if it could not be read. -/
def ofFile (path : String) (contents : Option String) : Except ConfigError Config :=
  match contents with
  | some text => parse text
  | none => .error (.unreadable path)

def exposure (c : Config) : Exposure := if c.exposeInternalErrors then .expose else .censor

/-- The client that sends requests as configured. There is none if the sender's name cannot be
sent. Requests that name their sender already are left alone. -/
def client? (c : Config) (send : Http.Client) : Option Http.Client :=
  match c.userAgent with
  | none => some send
  | some agent =>
    if Http.isHeaderValue agent then
      some fun request =>
        if request.headers.any (·.1 = "user-agent") then send request
        else send { request with headers := request.headers ++ [("user-agent", agent)] }
    else none

end Config

end ODataGraph
