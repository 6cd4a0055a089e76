import ODataGraph.Text.Cut

/-! Type references of a metadata document. -/

namespace ODataGraph.Csdl

def localName (qualified : String) : String := Text.afterLast '.' qualified

/-- A type as its attribute names it, with one level of `Collection(…)` taken off. -/
structure TypeRef where
  isCollection : Bool
  qualifiedName : String
  deriving DecidableEq

def TypeRef.parse (name : String) : TypeRef :=
  match (Text.dropStart? "Collection(" name).bind (Text.dropEnd? ")") with
  | some element => ⟨true, element⟩
  | none => ⟨false, name⟩

def TypeRef.localName (r : TypeRef) : String := Csdl.localName r.qualifiedName

end ODataGraph.Csdl
