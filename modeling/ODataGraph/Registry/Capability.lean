import ODataGraph.Csdl.Document
import ODataGraph.Registry.Descriptor

/-!
What vocabulary annotations amount to: descriptions, whether a type can be expanded and selected
from, and the query options that are offered for it.
-/

namespace ODataGraph

open Csdl (AppliedTerm)

/-- What an annotation can say yes or no to. -/
inductive Capability where
  | count
  | top
  | skip
  | search
  | filter
  | orderBy
  | expand
  | select
  deriving DecidableEq

namespace Capability

def ofTerm? : String → Option Capability
  | "CountRestrictions" => some .count
  | "TopSupported" => some .top
  | "SkipSupported" => some .skip
  | "SearchRestrictions" => some .search
  | "FilterRestrictions" => some .filter
  | "SortRestrictions" => some .orderBy
  | "ExpandRestrictions" => some .expand
  | "SelectRestrictions" => some .select
  | _ => none

/-- The property of the annotation's record that decides; without one it is the annotation's own
value. -/
def property? : Capability → Option String
  | .count => some "Countable"
  | .top => none
  | .skip => none
  | .search => some "Searchable"
  | .filter => some "Filterable"
  | .orderBy => some "Sortable"
  | .expand => some "Expandable"
  | .select => some "Selectable"

def stated (c : Capability) (a : AppliedTerm) : Option Bool :=
  match c.property? with
  | some name => (a.property name).bind (·.bool)
  | none => a.bool

end Capability

structure Capabilities where
  description : Option String := none
  longDescription : Option String := none
  notes : List String := []
  stated : Capability → Option Bool := fun _ => none

namespace Capabilities

def note (cs : Capabilities) (text : String) : Capabilities :=
  { cs with notes := cs.notes ++ [text] }

def noteProperty (cs : Capabilities) (a : AppliedTerm) (name text : String) : Capabilities :=
  match a.property name with
  | some value => cs.note (text ++ value.rawBool)
  | none => cs

def noteTracking (cs : Capabilities) (a : AppliedTerm) : Capabilities :=
  cs.noteProperty a "Supported" "This entity set supports the odata.track-changes preference: "

/-- An annotation that means nothing else is noted as it stands in the document. -/
def noteUnknown (cs : Capabilities) (a : AppliedTerm) : Capabilities :=
  cs.note (a.term ++ ": " ++ a.raw)

def coreTerms : String := "Org.OData.Core.V1."

def capabilityTerms : String := "Org.OData.Capabilities.V1."

def applyCore (cs : Capabilities) (term : String) (a : AppliedTerm) : Capabilities :=
  match term with
  | "Description" => { cs with description := a.string }
  | "LongDescription" => { cs with longDescription := a.string }
  | "ChangeTracking" => cs.noteTracking a
  | "Computed" =>
    if a.bool = some true then
      cs.note "A value for this property is generated on both insert and update"
    else cs
  | "Permissions" => cs
  | _ => cs.noteUnknown a

def noteNavigability (cs : Capabilities) (a : AppliedTerm) : Capabilities :=
  match (a.property "Navigability").bind (·.enumMember) with
  | some member =>
    let short := Text.dropStart? "Org.OData.Capabilities.V1.NavigationType/" member
    cs.note ("Navigability: " ++ short.getD member)
  | none => cs

def applyCapability (cs : Capabilities) (term : String) (a : AppliedTerm) : Capabilities :=
  match Capability.ofTerm? term with
  | some c => { cs with stated := fun c' => if c' = c then c.stated a else cs.stated c' }
  | none =>
    match term with
    | "ChangeTracking" => cs.noteTracking a
    | "NavigationRestrictions" => cs.noteNavigability a
    | "InsertRestrictions" => cs.noteProperty a "Insertable" "Entities can be inserted: "
    | "UpdateRestrictions" => cs.noteProperty a "Updatable" "Entities can be updated: "
    | "DeleteRestrictions" => cs.noteProperty a "Deletable" "Entities can be deleted: "
    | _ => cs.noteUnknown a

def apply (cs : Capabilities) (a : AppliedTerm) : Capabilities :=
  match Text.dropStart? coreTerms a.term with
  | some term => cs.applyCore term a
  | none =>
    match Text.dropStart? capabilityTerms a.term with
    | some term => cs.applyCapability term a
    | none => cs.noteUnknown a

/-- What a list of annotations says; of two that decide the same the later one counts. -/
def ofAnnotations (annotations : List AppliedTerm) : Capabilities := annotations.foldl apply {}

/-- The short and the long description and the notes, those that are there. -/
def fullDescription (cs : Capabilities) : Option String :=
  let parts := [cs.description, cs.longDescription, some (String.intercalate "\n" cs.notes)]
  let parts := parts.filterMap fun part => part.filter (!·.isEmpty)
  if parts.isEmpty then none else some (String.intercalate "\n\n" parts)

def supportNote (text : String) : Option Bool → String
  | some _ => text
  | none => text ++ ", may or may not be supported"

def skipArgument (cs : Capabilities) : Argument :=
  { type := .scalar .int, description := supportNote "Skip this many records" (cs.stated .skip) }

def searchArgument (cs : Capabilities) : Argument :=
  { type := .scalar .string, description := supportNote "Search String" (cs.stated .search) }

def options (cs : Capabilities) : List (Capability × String × Argument) :=
  [(.count, "_count", { type := .scalar .boolean }),
    (.top, "_top", { type := .scalar .int, description := "Return at most this many records" }),
    (.skip, "_skip", cs.skipArgument),
    (.search, "_search", cs.searchArgument),
    (.filter, "_filter", {
      type := .scalar .string
      description := "Filter string see " ++
        "https://help.nintex.com/en-us/insight/OData/HE_CON_ODATAQueryCheatSheet.htm#Filter" ++
        " for examples" }),
    (.orderBy, "_orderby", {
      type := .scalar .string
      description := "Fields to order by, comma separated. " ++
        "You may also add ' asc' or ' desc' to set the sort direction" })]

def arguments (cs : Capabilities) : OrderedMap String Argument :=
  .ofList ((cs.options.filter fun o => cs.stated o.1 != some false).map Prod.snd)

end Capabilities

namespace Csdl.Document

/-- The name under which the annotations of a registered type stand: an ending that makes it the
key of a base variant does not count. -/
def annotatedName (key : String) : String := (Text.dropEnd? baseEnding key).getD key

def typeCapabilities (d : Csdl.Document) (key : String) : Capabilities :=
  .ofAnnotations (d.annotations.ofTarget (annotatedName key) "")

end Csdl.Document

/-- Describes a field. The query options of the annotations are added where it lists entities. -/
def Field.annotate (f : Field) (cs : Capabilities) : Field :=
  let f := { f with description := cs.fullDescription }
  if f.kind = .navigation ∧ f.type.isList then
    { f with
      arguments := cs.arguments.entries.foldl (fun m (name, a) => m.insert name a) f.arguments }
  else f

def ObjectType.annotate (o : ObjectType) (cs : Capabilities)
    (properties : OrderedMap String (List AppliedTerm)) : ObjectType :=
  { o with
    description := cs.fullDescription
    arguments := cs.arguments
    expandable := (cs.stated .expand).getD o.expandable
    selectable := (cs.stated .select).getD o.selectable
    fields := properties.entries.foldl (fun fields (name, annotations) =>
      if name.isEmpty then fields
      else fields.modify name (·.annotate (.ofAnnotations annotations))) o.fields }

/-- Applies what the annotations of a document say to a type. Objects get the query options also
without any. -/
def Descriptor.annotate (d : Csdl.Document) (key : String) (t : Descriptor) : Descriptor :=
  let cs := d.typeCapabilities key
  match t with
  | .object o =>
    .object (o.annotate cs (d.annotations.ofType (Csdl.Document.annotatedName key)))
  | .union u => .union { u with description := cs.fullDescription }
  | .enum e => .enum { e with description := cs.fullDescription }

end ODataGraph
