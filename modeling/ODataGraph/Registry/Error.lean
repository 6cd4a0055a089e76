import ODataGraph.Csdl.Reader
import ODataGraph.Http.Exchange

/-! Why there is no schema of a service, and who may see the reason of an error. -/

namespace ODataGraph

/-- Whether an error is the business of those who use the schema. -/
inductive Visibility where
  | user
  | internal
  deriving DecidableEq, Inhabited

inductive SchemaError where
  | metadataFetch (url : String) (fault : Http.Fault)
  | metadataStatus (url : String) (status : Http.Status)
  | metadataParse (url : String) (cause : Csdl.ReadError)
  | inheritanceCycle (types : List String)
  | unknownBaseUrl (baseUrl : String)
  | unknownType (baseUrl typeName : String)
  deriving DecidableEq

namespace SchemaError

def message : SchemaError → String
  | .metadataFetch url fault => "failed to fetch metadata from " ++ url ++ ": " ++ fault.message
  | .metadataStatus url status =>
    "metadata request to " ++ url ++ " failed with status " ++ status.text
  | .metadataParse url cause => "invalid metadata document at " ++ url ++ ": " ++ cause.message
  | .inheritanceCycle types =>
    "inheritance cycle between the types " ++ String.intercalate ", " types
  | .unknownBaseUrl baseUrl => "no schema has been built for the OData service at " ++ baseUrl
  | .unknownType baseUrl typeName =>
    "the OData service at " ++ baseUrl ++ " has no type named " ++ typeName

def visibility : SchemaError → Visibility
  | .metadataFetch .. => .internal
  | _ => .user

end SchemaError

end ODataGraph
