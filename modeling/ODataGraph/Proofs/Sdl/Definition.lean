import ODataGraph.Engine.Sdl

/-!
A schema as the list of its definitions. What is written of a registry or an engine are the texts of
the definitions, in their order and apart by an empty line, and every text shows the name that it
defines.
-/

namespace ODataGraph

namespace Sdl

inductive Definition where
  | scalar (s : Scalar)
  /-- The root of an engine, with a field for every service and those that the host adds. -/
  | root (kind : RootKind) (services : List (String × ExposedService))
      (fields : List (Registry × String × Field))
  | type (r : Registry) (t : Descriptor)

namespace Definition

def name : Definition → String
  | .scalar s => s.name
  | .root kind _ _ => kind.typeName
  | .type _ t => t.name

def description : Definition → Option String
  | .scalar s => s.description
  | .root .. => none
  | .type _ t => t.description

def keyword : Definition → String
  | .scalar _ => "scalar"
  | .type _ (.enum _) => "enum"
  | .type _ (.union _) => "union"
  | _ => "type"

/-- What follows the name. -/
def body : Definition → String
  | .scalar _ => "\n"
  | .root kind services fields => block "" (
      services.map (fun (label, s) => Engine.serviceLine kind label s) ++
        fields.map fun (r, name, f) => field r name f)
  | .type r (.object o) => block (directives o.directives) (
      o.fields.entries.map fun (name, f) => field r name f)
  | .type _ (.enum e) => block (directives e.directives) (
      e.values.map fun v => "  " ++ v.name ++ "\n")
  | .type r (.union u) =>
    directives u.directives ++ " = " ++ String.intercalate " | " (u.members.map r.nameOf) ++ "\n"

def write (d : Definition) : String :=
  Sdl.description d.description "" ++ d.keyword ++ " " ++ d.name ++ d.body

theorem write_scalar (s : Scalar) : Sdl.scalar s = (scalar s).write ++ "\n" := by
  simp only [Sdl.scalar, write, description, keyword, name, body, String.append_assoc]
  rfl

theorem write_type (r : Registry) (t : Descriptor) : (type r t).write = descriptor r t := by
  cases t <;>
    simp only [descriptor, object, write, description, keyword, name, body, block, Descriptor.name,
      Descriptor.description, String.append_assoc] <;> rfl

end Definition

def schemaBlock (query mutation : String) : String :=
  block "schema" ["  query: " ++ query ++ "\n", "  mutation: " ++ mutation ++ "\n"]

/-- The texts of definitions after that of the schema itself, with empty lines between them. -/
def document (query mutation : String) (ds : List Definition) : String :=
  String.intercalate "\n" (schemaBlock query mutation :: ds.map Definition.write)

/-- The texts of definitions, each after an empty line. -/
def listing (ds : List Definition) : String := String.join (ds.map fun d => "\n" ++ d.write)

theorem listing_append (ds ds' : List Definition) :
    listing (ds ++ ds') = listing ds ++ listing ds' := by
  rw [listing, List.map_append, String.join_append]
  rfl

theorem listing_cons (d : Definition) (ds : List Definition) :
    listing (d :: ds) = "\n" ++ d.write ++ listing ds := by
  rw [listing, List.map_cons, String.join_cons]
  rfl

theorem listing_flatMap {α : Type} (f : α → List Definition) (l : List α) :
    listing (l.flatMap f) = String.join (l.map fun a => listing (f a)) := by
  induction l with
  | nil => rfl
  | cons a rest ih =>
    rw [List.flatMap_cons, listing_append, List.map_cons, String.join_cons, ih]

theorem intercalate_cons_eq_join (first : String) (texts : List String) :
    String.intercalate "\n" (first :: texts) = first ++ String.join (texts.map ("\n" ++ ·)) := by
  induction texts generalizing first with
  | nil => simp
  | cons text rest ih =>
    rw [String.intercalate_cons_of_ne_nil (List.cons_ne_nil _ _), ih, List.map_cons,
      String.join_cons, String.append_assoc, String.append_assoc]

theorem document_eq (query mutation : String) (ds : List Definition) :
    document query mutation ds = schemaBlock query mutation ++ listing ds := by
  rw [document, intercalate_cons_eq_join, List.map_map]
  rfl

/-- An empty line after each scalar is one before each and one after all. -/
theorem append_scalars (ss : List Scalar) : "\n" ++ scalars ss =
    listing ((ss.filter (!·.isBuiltin)).map .scalar) ++ "\n" := by
  rw [scalars]
  induction ss.filter (!·.isBuiltin) with
  | nil => rfl
  | cons s rest ih =>
    rw [List.map_cons, List.map_cons, String.join_cons, listing_cons, Definition.write_scalar,
      String.append_assoc, String.append_assoc, ih]
    simp only [String.append_assoc]

theorem schema_append_scalars (query mutation : String) (ss : List Scalar) :
    schema query mutation ++ scalars ss =
      schemaBlock query mutation ++ listing ((ss.filter (!·.isBuiltin)).map .scalar) ++ "\n" := by
  rw [String.append_assoc, ← append_scalars, schema, String.append_assoc]
  rfl

end Sdl

namespace Registry

open Sdl (Definition)

/-- The definitions of a registry's own types, of which the last two are its roots. -/
def typeDefinitions (r : Registry) : List Definition :=
  (r.types.values ++ [Descriptor.object r.queryRoot, Descriptor.object r.mutationRoot]).map
    (.type r)

def definitions (r : Registry) : List Definition :=
  (r.referencedScalars.filter (!·.isBuiltin)).map .scalar ++ r.typeDefinitions

theorem append_definitions (r : Registry) :
    "\n" ++ Sdl.definitions r = Sdl.listing r.typeDefinitions := by
  rw [Sdl.definitions, typeDefinitions]
  induction r.types.values with
  | nil =>
    simp only [Sdl.listing, List.nil_append, List.map_cons, List.map_nil, String.join_cons,
      String.join_nil, Definition.write_type, Sdl.descriptor, String.append_assoc,
      String.append_empty, String.empty_append]
  | cons t rest ih =>
    rw [List.map_cons, List.cons_append, List.map_cons, Sdl.listing_cons, Definition.write_type,
      ← ih, String.join_cons]
    simp only [String.append_assoc]

/-- What is written of a registry are its definitions. -/
theorem sdl_eq (r : Registry) :
    r.sdl = Sdl.document r.queryRoot.name r.mutationRoot.name r.definitions := by
  rw [sdl, Sdl.schema_append_scalars, Sdl.document_eq, definitions, Sdl.listing_append,
    ← append_definitions]
  simp only [String.append_assoc]

end Registry

namespace Engine

open Sdl (Definition)

/-- The fields of the host, each with the registry that has its type. -/
def hostRows (e : Engine) : List (Registry × String × Field) :=
  e.hostFields.entries.filterMap fun (name, h) =>
    (e.services.get? h.service).map fun s => (s.registry, name, h.field)

def rootDefinitions (e : Engine) : List Definition :=
  [.root .query e.services.entries e.hostRows, .root .mutation e.services.entries []]

def definitions (e : Engine) : List Definition :=
  (e.referencedScalars.filter (!·.isBuiltin)).map .scalar ++ e.rootDefinitions ++
    e.services.values.flatMap fun s => s.registry.typeDefinitions

theorem write_root (e : Engine) (kind : RootKind) (fields : List (Registry × String × Field)) :
    (Definition.root kind e.services.entries fields).write =
      e.rootBlock kind (fields.map fun (r, name, f) => Sdl.field r name f) := by
  cases kind <;>
    simp only [rootBlock, Sdl.block, Definition.write, Definition.description, Definition.keyword,
      Definition.name, Definition.body, String.append_assoc] <;> rfl

/-- A field of the host whose service is not there is not written. -/
theorem join_hostLines (e : Engine) :
    String.join (e.hostFields.entries.map fun (name, h) => e.hostLines name h) =
      String.join (e.hostRows.map fun (r, name, f) => Sdl.field r name f) := by
  rw [hostRows]
  induction e.hostFields.entries with
  | nil => rfl
  | cons entry rest ih =>
    rw [List.map_cons, String.join_cons, ih, List.filterMap_cons]
    cases hs : e.services.get? entry.2.service with
    | none =>
      simp only [hostLines, hs, Option.map_none, String.empty_append]
    | some s =>
      simp only [hostLines, hs, Option.map_some, List.map_cons, String.join_cons]

theorem rootBlock_query (e : Engine) :
    e.rootBlock .query (e.hostFields.entries.map fun (name, h) => e.hostLines name h) =
      (Definition.root .query e.services.entries e.hostRows).write := by
  rw [write_root, rootBlock, rootBlock, Sdl.block, Sdl.block, String.join_append,
    String.join_append, join_hostLines]

theorem sdl_eq (e : Engine) : e.sdl =
    Sdl.document RootKind.query.typeName RootKind.mutation.typeName e.definitions := by
  have hservices : String.join (e.services.values.map fun s => "\n" ++ Sdl.definitions s.registry) =
      Sdl.listing (e.services.values.flatMap fun s => s.registry.typeDefinitions) := by
    simp only [Sdl.listing_flatMap, Registry.append_definitions]
  rw [sdl, Sdl.schema_append_scalars, Sdl.document_eq, definitions, Sdl.listing_append,
    Sdl.listing_append, hservices, rootBlock_query, rootDefinitions, Sdl.listing_cons,
    Sdl.listing_cons, write_root]
  simp only [String.append_assoc]
  rfl

end Engine

end ODataGraph
