import ODataGraph.OrderedMap
import ODataGraph.Text.Blank
import ODataGraph.Text.Cut
import ODataGraph.Text.LowerCase

/-! Vocabulary annotations, and the types and properties that they are about. -/

namespace ODataGraph.Csdl

def readBool (raw : String) : Bool := Text.eqIgnoringAsciiCase (Text.trimBlanks raw) "true"

/-- One entry of an annotation's record: constants given as attributes, and the text of its first
child element. -/
structure PropertyValue where
  attributes : OrderedMap String String := ∅
  text : Option String := none
  deriving BEq

namespace PropertyValue

/-- A boolean as it is written; empty if there is none. -/
def rawBool (v : PropertyValue) : String := ((v.attributes.get? "Bool").or v.text).getD ""

def bool (v : PropertyValue) : Option Bool :=
  if v.rawBool.isEmpty then none else some (readBool v.rawBool)

def enumMember (v : PropertyValue) : Option String := (v.attributes.get? "EnumMember").or v.text

end PropertyValue

structure AppliedTerm where
  term : String
  /-- Constants given as attributes, such as `Bool` or `String`. -/
  attributes : OrderedMap String String := ∅
  text : Option String := none
  record : OrderedMap String PropertyValue := ∅
  /-- The element as it stands in the document. -/
  raw : String := ""
  deriving BEq

namespace AppliedTerm

def string (a : AppliedTerm) : Option String := (a.attributes.get? "String").or a.text

def bool (a : AppliedTerm) : Option Bool :=
  ((a.attributes.get? "Bool").or a.text).map readBool

def property (a : AppliedTerm) (name : String) : Option PropertyValue := a.record.get? name

end AppliedTerm

/-- What an annotation is about: a property of a type, or the type itself, whose property name is
the empty one. -/
structure Target where
  type : String
  property : String
  deriving DecidableEq

/-- The type, without namespace, and the property of a path such as `Zoo.Dog/Name`. -/
def Target.ofPath (path : String) : Target :=
  match Text.cut '/' (Text.afterLast '.' path).toList with
  | type :: property :: _ => ⟨String.ofList type, String.ofList property⟩
  | [type] => ⟨String.ofList type, ""⟩
  | [] => ⟨"", ""⟩

/-- Annotations with what they are about, in the order of the document. Type names stand in lower
case. -/
structure AnnotationTargets where
  entries : List (Target × AppliedTerm) := []
  deriving BEq

namespace AnnotationTargets

def insert (ts : AnnotationTargets) (target : Target) (a : AppliedTerm) : AnnotationTargets :=
  ⟨ts.entries ++ [(⟨Text.lowerCase target.type, target.property⟩, a)]⟩

def insertAll (ts : AnnotationTargets) (target : Target) (as : List AppliedTerm) :
    AnnotationTargets :=
  as.foldl (·.insert target ·) ts

def isEmpty (ts : AnnotationTargets) : Bool := ts.entries.isEmpty

/-- What is said about a type whose name is the given one up to case, by property. -/
def ofType (ts : AnnotationTargets) (name : String) : OrderedMap String (List AppliedTerm) :=
  let about := ts.entries.filter (·.1.type == Text.lowerCase name)
  about.foldl (fun m (target, a) =>
    m.insert target.property ((m.get? target.property).getD [] ++ [a])) ∅

def ofTarget (ts : AnnotationTargets) (name property : String) : List AppliedTerm :=
  ((ts.ofType name).get? property).getD []

end AnnotationTargets

end ODataGraph.Csdl
