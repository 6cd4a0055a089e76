import ODataGraph.Json.Basic
import ODataGraph.Registry.Error

/-!
Why a field has no value. Only what a service answers to a data request is recoverable: the field
becomes null and its error is listed. Any other error ends the root field it happens under.
-/

namespace ODataGraph

inductive Exposure where
  | expose
  | censor
  deriving DecidableEq, Inhabited

/-- A failure that a hook of the host reports. -/
structure HookError where
  message : String
  deriving DecidableEq

inductive FieldError where
  | unauthorized (url : String) (details : Json)
  | remote (url : String) (status : Http.Status) (details : Json)
  | unresolvable (typeName : String)
  /-- An object has no such field, or no way to its value at a root. -/
  | unresolvableField (typeName fieldName : String)
  /-- An entity's type has no object with the fields to select. -/
  | missingObject (typeName : String)
  | notAnObject (odataType typeName : String)
  | hook (error : HookError)
  | transport (fault : Http.Fault)
  | decode
  | invalidUrl (url : String)
  | cancelled
  | schema (error : SchemaError)

/-- A step on the way from the root of a response to one of its values. -/
inductive PathSegment where
  | field (name : String)
  | index (position : Nat)
  deriving DecidableEq

abbrev Path := List PathSegment

def PathSegment.json : PathSegment → Json
  | .field name => .string name
  | .index i => .ofNat i

structure GraphQLError where
  message : String
  path : Option Path := none
  details : Option Json := none
  deriving BEq

namespace FieldError

def isRecoverable : FieldError → Bool
  | .unauthorized .. | .remote .. => true
  | _ => false

def unresolvableMessage (name : String) : String := "no way to resolve a value of type " ++ name

def message : FieldError → String
  | .unauthorized url _ => "access to " ++ url ++ " was denied by the OData service"
  | .remote url status _ => "OData request to " ++ url ++ " failed with status " ++ status.text
  | .unresolvable typeName | .missingObject typeName => unresolvableMessage typeName
  | .unresolvableField typeName fieldName => unresolvableMessage (typeName ++ "." ++ fieldName)
  | .notAnObject odataType typeName =>
    "entity discriminator " ++ odataType ++ " names " ++ typeName ++ ", which is not an object type"
  | .hook error => "request hook failed: " ++ error.message
  | .transport fault => "OData request failed: " ++ fault.message
  | .decode => "unexpected OData response: the body is not what its type asks for"
  | .invalidUrl url => "invalid OData request URL " ++ url
  | .cancelled => "the request was cancelled"
  | .schema error => error.message

def visibility : FieldError → Visibility
  | .unresolvable _ | .unresolvableField .. | .missingObject _ | .notAnObject .. | .transport _
  | .decode => .internal
  | .schema error => error.visibility
  | _ => .user

def details? : FieldError → Option Json
  | .unauthorized _ details | .remote _ _ details => some details
  | _ => none

/-- The error as it is listed. Of internal errors that are not exposed only the place shows. -/
def toGraphQL (e : FieldError) (exposure : Exposure) (path : Option Path) : GraphQLError :=
  if e.visibility = .internal ∧ exposure = .censor then { message := "internal error", path }
  else { message := e.message, path, details := e.details? }

end FieldError

end ODataGraph
