/-! Names in GraphQL. -/

namespace ODataGraph.Graphql

def isNameStart (c : Char) : Bool := c == '_' || c.isAlpha

def isNameChar (c : Char) : Bool := isNameStart c || c.isDigit

def isName (s : String) : Bool :=
  match s.toList with
  | c :: cs => isNameStart c && cs.all isNameChar
  | [] => false

/-- Names that start with two underscores are reserved for introspection. -/
def isReserved (s : String) : Bool := "__".toList.isPrefixOf s.toList

def isFieldName (s : String) : Bool := isName s && !isReserved s

end ODataGraph.Graphql
