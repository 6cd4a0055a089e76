import ODataGraph.Csdl.Vocabulary
import ODataGraph.Csdl.TypeRef

/-! What a metadata document declares, as far as a schema is made from it. -/

namespace ODataGraph.Csdl

structure EnumMember where
  name : String
  value : Option String
  deriving DecidableEq

structure EnumType where
  name : String
  isFlags : Bool := false
  members : List EnumMember := []
  deriving DecidableEq

inductive StructuredKind where
  | entity
  | complex
  deriving DecidableEq

inductive MemberKind where
  | property
  | navigation
  deriving DecidableEq

structure Member where
  name : String
  type : String
  kind : MemberKind := .property
  nullable : Bool := true
  deriving DecidableEq

structure StructuredType where
  name : String
  kind : StructuredKind := .entity
  /-- The qualified name of the type it extends. -/
  base : Option String := none
  isAbstract : Bool := false
  members : List Member := []
  deriving DecidableEq

def StructuredType.baseName (t : StructuredType) : Option String :=
  (t.base.filter (!·.isEmpty)).map localName

structure Parameter where
  name : String
  type : String
  nullable : Bool := true
  deriving DecidableEq

structure Function where
  name : String
  isBound : Bool := false
  parameters : List Parameter := []
  returnType : Option String := none
  deriving DecidableEq

inductive EntryKind where
  | entitySet
  | singleton
  deriving DecidableEq

/-- An entry of an entity container, with the qualified name of its (element) type. -/
structure ContainerEntry where
  kind : EntryKind
  name : String
  type : String
  deriving DecidableEq

structure Document where
  enumTypes : List EnumType := []
  structuredTypes : List StructuredType := []
  functions : List Function := []
  container : List ContainerEntry := []
  annotations : AnnotationTargets := {}
  deriving BEq

end ODataGraph.Csdl
