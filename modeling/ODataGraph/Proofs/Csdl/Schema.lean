import ODataGraph.Csdl.Reader
import ODataGraph.Proofs.Sequence

/-!
Types as a metadata document declares them, each in the namespace of the schema around it. What is
read of a document has their names without the namespaces.
-/

namespace ODataGraph.Csdl

open Xml (Node)

/-- A structured type as it is declared: its namespace, its name, and its base as it is written. -/
structure Declaration where
  space : Option String
  name : String
  base : Option String
  deriving DecidableEq

namespace Declaration

def qualifiedName (c : Declaration) : String :=
  match c.space with
  | some space => space ++ "." ++ c.name
  | none => c.name

/-- The name of the base without its namespace. -/
def localBase (c : Declaration) : Option String := (c.base.filter (!·.isEmpty)).map localName

/-- What is read of a declaration. -/
def written (c : Declaration) : String × Option String := (c.name, c.base)

def ofNode? (space : Option String) (n : Node) : Option Declaration :=
  if n.name = "EntityType" ∨ n.name = "ComplexType" then
    (n.attribute? "Name").map fun name => ⟨space, name, n.attribute? "BaseType"⟩
  else none

theorem map_written_ofNode? (space : Option String) (n : Node) :
    (ofNode? space n).map written = (ofNode? none n).map written := by
  rw [ofNode?, ofNode?]
  split
  · rw [Option.map_map, Option.map_map]
    rfl
  · rfl

end Declaration

mutual

/-- The types declared in an element, given the namespace of the schema that it stands in. -/
def declarations (space : Option String) : Node → List Declaration
  | n@(.element name _ children ..) =>
    let space := if name = "Schema" then n.attribute? "Namespace" else space
    (Declaration.ofNode? space n).toList ++ declarationsOf space children
  | _ => []

def declarationsOf (space : Option String) : List Node → List Declaration
  | [] => []
  | n :: ns => declarations space n ++ declarationsOf space ns

end

mutual

theorem map_written_declarations (space : Option String) : ∀ n : Node,
    (declarations space n).map Declaration.written =
      n.elements.filterMap fun n => (Declaration.ofNode? none n).map Declaration.written
  | .element name attributes children startTag endTag => by
    rw [declarations, Node.elements, List.map_append, List.filterMap_cons,
      map_written_declarationsOf _ children, ← Option.toList_map,
      Declaration.map_written_ofNode?]
    cases Declaration.ofNode? none (.element name attributes children startTag endTag) <;> rfl
  | .text .. => rfl
  | .remark .. => rfl

theorem map_written_declarationsOf (space : Option String) : ∀ ns : List Node,
    (declarationsOf space ns).map Declaration.written =
      (Node.elementsOf ns).filterMap fun n =>
        (Declaration.ofNode? none n).map Declaration.written
  | [] => rfl
  | n :: ns => by
    rw [declarationsOf, Node.elementsOf, List.map_append, List.filterMap_append,
      map_written_declarations space n, map_written_declarationsOf space ns]

end

/-- What is read of a structured type that a declaration has, too. -/
def StructuredType.written (t : StructuredType) : String × Option String := (t.name, t.base)

theorem attribute?_of_required {n : Node} {name value : String}
    (h : required n name = .ok value) : n.attribute? name = some value := by
  rw [required] at h
  split at h
  · cases h
    assumption
  · cases h

theorem StructuredType.written_of_ofNode {kind : StructuredKind} {n : Node} {t : StructuredType}
    (h : ofNode kind n = .ok t) : (n.attribute? "Name").map (·, n.attribute? "BaseType") =
      some t.written := by
  obtain ⟨name, hname, h⟩ := bind_eq_ok_iff.1 h
  obtain ⟨members, _, h⟩ := bind_eq_ok_iff.1 h
  cases h
  rw [attribute?_of_required hname]
  rfl

namespace Document

variable {d d' : Document} {n : Node}

/-- What is read of the structured types. -/
def written (d : Document) : List (String × Option String) :=
  d.structuredTypes.map StructuredType.written

theorem written_of_addStructured {kind : StructuredKind}
    (hname : n.name = "EntityType" ∨ n.name = "ComplexType") (h : d.addStructured kind n = .ok d') :
    d'.written = d.written ++ ((Declaration.ofNode? none n).map Declaration.written).toList := by
  obtain ⟨t, ht, h⟩ := bind_eq_ok_iff.1 h
  cases h
  have hwritten : (Declaration.ofNode? none n).map Declaration.written = some t.written := by
    rw [Declaration.ofNode?, if_pos hname, Option.map_map]
    exact StructuredType.written_of_ofNode ht
  rw [hwritten]
  exact List.map_append

/-- An element that declares no structured type leaves them as they are. -/
theorem written_of_structuredTypes_eq (hentity : n.name ≠ "EntityType")
    (hcomplex : n.name ≠ "ComplexType") (h : d'.structuredTypes = d.structuredTypes) :
    d'.written = d.written ++ ((Declaration.ofNode? none n).map Declaration.written).toList := by
  rw [Declaration.ofNode?, if_neg (not_or_intro hentity hcomplex), written, h, Option.map_none]
  exact (List.append_nil _).symm

theorem written_of_addElement (h : d.addElement n = .ok d') :
    d'.written = d.written ++ ((Declaration.ofNode? none n).map Declaration.written).toList := by
  rw [addElement] at h
  split at h
  case h_1 hname =>
    refine written_of_structuredTypes_eq (by rw [hname]; decide) (by rw [hname]; decide) ?_
    obtain ⟨_, _, h⟩ := bind_eq_ok_iff.1 h
    cases h
    rfl
  case h_2 hname => exact written_of_addStructured (.inl hname) h
  case h_3 hname => exact written_of_addStructured (.inr hname) h
  case h_4 hname =>
    refine written_of_structuredTypes_eq (by rw [hname]; decide) (by rw [hname]; decide) ?_
    obtain ⟨_, _, h⟩ := bind_eq_ok_iff.1 h
    cases h
    rfl
  case h_5 hname =>
    refine written_of_structuredTypes_eq (by rw [hname]; decide) (by rw [hname]; decide) ?_
    obtain ⟨_, _, h⟩ := bind_eq_ok_iff.1 h
    cases h
    rfl
  case h_6 hname =>
    refine written_of_structuredTypes_eq (by rw [hname]; decide) (by rw [hname]; decide) ?_
    split at h
    · cases h
      rfl
    · cases h
      rfl
  case h_7 hentity hcomplex _ _ _ =>
    cases h
    exact written_of_structuredTypes_eq hentity hcomplex rfl

theorem written_of_foldlM {ns : List Node} (h : ns.foldlM addElement d = .ok d') :
    d'.written = d.written ++
      ns.filterMap fun n => (Declaration.ofNode? none n).map Declaration.written := by
  induction ns generalizing d with
  | nil =>
    cases h
    exact (List.append_nil _).symm
  | cons n rest ih =>
    rw [List.foldlM_cons] at h
    obtain ⟨d₁, hn, h⟩ := bind_eq_ok_iff.1 h
    rw [ih h, written_of_addElement hn, List.append_assoc, List.filterMap_cons]
    cases (Declaration.ofNode? none n).map Declaration.written <;> rfl

/-- The structured types that are read are the declared ones, in their order. -/
theorem written_of_ofNode {root : Node} (h : ofNode root = .ok d) (space : Option String) :
    d.written = (declarations space root).map Declaration.written := by
  rw [written_of_foldlM h, map_written_declarations]
  rfl

end Document

end ODataGraph.Csdl
