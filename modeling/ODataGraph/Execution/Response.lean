import ODataGraph.Execution.Error
import ODataGraph.Json.Printer

/-! Responses to GraphQL requests. -/

namespace ODataGraph

/-- Without data when the request failed before it was executed. -/
structure Response where
  data : Option Json.Members := none
  errors : List GraphQLError := []
  deriving BEq

def pathJson (path : Path) : Json := .array (path.map PathSegment.json)

def GraphQLError.json (e : GraphQLError) : Json :=
  .object ([("message", .string e.message)] ++
    (e.path.map fun path => ("path", pathJson path)).toList ++
    (e.details.map fun details => ("extensions", .object [("details", details)])).toList)

namespace Response

/-- The answer to a request that could not be executed. -/
def requestError (message : String) : Response := { errors := [{ message }] }

def hasErrors (r : Response) : Bool := !r.errors.isEmpty

def json (r : Response) : Json :=
  .object ((r.data.map fun data => ("data", .object data)).toList ++
    if r.errors.isEmpty then [] else [("errors", .array (r.errors.map GraphQLError.json))])

def text (r : Response) : String := r.json.print

/-- All error messages in one line. Clients see them anyway. -/
def summary (r : Response) : Option (String × Visibility) :=
  if r.errors.isEmpty then none
  else some (String.intercalate ", " (r.errors.map (·.message)), .user)

end Response

end ODataGraph
