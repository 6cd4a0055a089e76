import ODataGraph.Execution.Entity
import ODataGraph.Json.Record
import ODataGraph.Text.Base64
import ODataGraph.Text.Utf8

/-! What services answer, and how it is read as a value of a field. -/

namespace ODataGraph

/-- The body of a successful response: text, or anything else as a `data:` URL. -/
structure Payload where
  text : String
  deriving DecidableEq

namespace Payload

def dataUrl (contentType : String) (body : List UInt8) : String :=
  "data:" ++ contentType ++ ";base64," ++ Text.Base64.encode body

/-- The code in the body of an error: the body is a record whose `error` is a record again. -/
def errorCode (details : Json) : Option String := do
  let envelope ← details.record? ["error"]
  let error ← (← envelope.lookup "error").record? ["code"]
  (← Json.optionalString? (error.lookup "code"))

/-- The body of a failed response, as a text if it is not JSON. -/
def errorDetails (body : List UInt8) : Json :=
  ((Text.Utf8.decode? body).bind Json.parse?).getD (.string (Text.Utf8.decodeLossy body))

def requestDenied : String := "Authorization_RequestDenied"

def ofResponse (url : String) (r : Http.Response) : Except FieldError Payload :=
  if r.status.isSuccess then
    match r.contentType with
    | some contentType =>
      if Http.isJson contentType then .ok ⟨Text.Utf8.decodeLossy r.body⟩
      else .ok ⟨dataUrl contentType r.body⟩
    | none => .ok ⟨Text.Utf8.decodeLossy r.body⟩
  else
    let details := errorDetails r.body
    if errorCode details = some requestDenied then .error (.unauthorized url details)
    else .error (.remote url r.status details)

end Payload

inductive Decoded where
  | entities (entities : List Entity)
  | entity (entity : Entity)
  | text (text : String)
  /-- Of no entities the first one. -/
  | nothing

namespace Decoded

def entityOf (r : Registry) (key : String) (value : Json) (originUrl : Option String) :
    Except FieldError Entity :=
  match value with
  | .object data => Entity.materialize r key data originUrl
  | _ => .error .decode

/-- Lists, and single entities when only the first one is wanted, come as a collection. -/
def collection (r : Registry) (key : String) (payload : Payload) (firstOnly : Bool) :
    Except FieldError Decoded := do
  let some items := Json.collection? payload.text | .error .decode
  let entities ← items.mapM (entityOf r key · none)
  if !firstOnly then return .entities entities
  match entities with
  | first :: _ => return .entity first
  | [] => return .nothing

/-- Reads a payload from a URL. Objects and unions are read from all of it, strings are the payload
as it is, and nothing else can be read. -/
def ofPayload (r : Registry) (type : TypeReference) (payload : Payload) (url : String)
    (firstOnly : Bool) : Except FieldError Decoded :=
  let unresolvable : Except FieldError Decoded := .error (.unresolvable (r.writeType type))
  if type.isList ∨ firstOnly then
    match type.key?.filter r.isComposite with
    | some key => collection r key payload firstOnly
    | none => unresolvable
  else match type.underlying with
    | .named key =>
      if r.isComposite key then
        match Json.parse? payload.text with
        | some body => (entityOf r key body (some url)).map .entity
        | none => .error .decode
      else unresolvable
    | .scalar .string => .ok (.text payload.text)
    | _ => unresolvable

end Decoded

end ODataGraph
