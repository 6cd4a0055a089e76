import ODataGraph.Graphql.Name
import ODataGraph.Registry.Descriptor
import ODataGraph.Registry.Error
import ODataGraph.Text.Blank
import ODataGraph.Text.Quoted

/-!
Which services can be exposed together: labels are names of root fields, and no two services have
the same label or the same place.
-/

namespace ODataGraph

inductive ServicesError where
  | invalidLabel (label : String)
  | duplicateLabel (label : String)
  | duplicateBaseUrl (baseUrl : String)
  deriving DecidableEq

def ServicesError.message : ServicesError → String
  | .invalidLabel label =>
    "the prefix " ++ Text.Quoted.encode label ++ " is not a valid GraphQL name"
  | .duplicateLabel label => "the prefix " ++ label ++ " is used by more than one service"
  | .duplicateBaseUrl baseUrl =>
    "the base URL " ++ baseUrl ++ " is used by more than one service"

namespace Service

/-- Where a service is. Slashes at the end do not count. -/
def place (s : Service) : String := Text.trimEndSlashes s.baseUrl

/-- Checks services in their order, each against `earlier` ones and those before it. -/
def validateAfter (earlier : List Service) : List Service → Except ServicesError Unit
  | [] => .ok ()
  | s :: rest =>
    if !Graphql.isFieldName s.label then .error (.invalidLabel s.label)
    else if earlier.any (·.label = s.label) then .error (.duplicateLabel s.label)
    else if earlier.any (·.place = s.place) then .error (.duplicateBaseUrl s.baseUrl)
    else validateAfter (s :: earlier) rest

def validate (services : List Service) : Except ServicesError Unit := validateAfter [] services

end Service

end ODataGraph
