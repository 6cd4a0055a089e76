import ODataGraph.Graphql.Document

/-! Why a request is refused before anything is sent to a service. -/

namespace ODataGraph

inductive RequestError where
  | document (error : Graphql.DocumentError)
  | operationNotFound (name : String)
  | operationNameRequired
  | subscription
  | missingVariable (name : String)
  | undefinedVariable (name : String)
  | fragmentNotFound (name : String)
  | fragmentCycle (name : String)
  | unknownType (name : String)
  | invalidCondition (condition typeName : String)
  | unknownField (typeName fieldName : String)
  | unknownArgument (fieldName argument : String)
  | missingArgument (fieldName argument : String)
  | selectionRequired (fieldName : String)
  | selectionNotAllowed (fieldName : String)
  | invalidDirective (name : String)
  deriving DecidableEq

def RequestError.message : RequestError → String
  | .document error => error.message
  | .operationNotFound name => "no operation named " ++ name ++ " in the document"
  | .operationNameRequired =>
    "the operation name is required when the document has more than one operation"
  | .subscription => "subscriptions are not supported"
  | .missingVariable name => "the variable $" ++ name ++ " is required"
  | .undefinedVariable name => "the variable $" ++ name ++ " is not defined by the operation"
  | .fragmentNotFound name => "no fragment named " ++ name ++ " in the document"
  | .fragmentCycle name => "the fragment " ++ name ++ " spreads itself"
  | .unknownType name => "unknown type " ++ name
  | .invalidCondition condition typeName =>
    "a fragment on " ++ condition ++ " can never apply to a value of type " ++ typeName
  | .unknownField typeName fieldName => "the type " ++ typeName ++ " has no field " ++ fieldName
  | .unknownArgument fieldName argument =>
    "the field " ++ fieldName ++ " has no argument " ++ argument
  | .missingArgument fieldName argument =>
    "the argument " ++ argument ++ " of the field " ++ fieldName ++ " is required"
  | .selectionRequired fieldName =>
    "the field " ++ fieldName ++ " must have a selection of subfields"
  | .selectionNotAllowed fieldName =>
    "the field " ++ fieldName ++ " of a leaf type cannot have subfields"
  | .invalidDirective name => "the directive @" ++ name ++ " needs a boolean argument 'if'"

end ODataGraph
