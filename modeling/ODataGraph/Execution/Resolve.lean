import ODataGraph.Execution.Resolver
import ODataGraph.Execution.Selection

/-!
Resolving selections: fields come from the data that their entity holds, or from requests to the
service, one after the other. The first error that is not recoverable ends it.
-/

namespace ODataGraph

/-- Completes a value that is there already: leaves are coerced, and every object in it is
materialized and handed to `onEntity` with its path. What does not have the shape of its type
becomes null. -/
def completeValue (r : Registry) (onEntity : Entity → Path → Resolver Json) :
    TypeReference → Json → Path → Resolver Json
  | _, .null, _ => return .null
  | .nonNull type, value, path => completeValue r onEntity type value path
  | .list type, .array items, path =>
    return .array (← items.zipIdx.mapM fun (item, i) =>
      completeValue r onEntity type item (path ++ [.index i]))
  | .list _, _, _ => return .null
  | .named key, value, path =>
    if r.isComposite key then
      match value with
      | .object data => do
        onEntity (← Resolver.lift (Entity.materialize r key data none)) path
      | _ => return .null
    else return value
  | .scalar s, value, _ => return s.coerce value

/-- Where the fields of an object are resolved: at a root, or on an entity. -/
inductive Parent where
  | root
  | entity (entity : Entity)

namespace Parent

/-- Whether a field is selected here. All fields of a root are. -/
def selects (p : Parent) (s : Selection) : Bool :=
  match p with
  | .root => true
  | .entity e => s.appliesTo e.typeKey

end Parent

namespace Execution

open Resolver (lift)

/-- The properties to ask for in a request for elements of a type; what else is selected is
requested by itself. None are named if the type forbids it, if nothing is selected, or if a field
is one of a subtype only. -/
def selectList (r : Registry) (key : String) (fields : List Selection) : Option (List String) := do
  let (_, object) ← r.concreteObject? key
  if !object.selectable || fields.isEmpty then none
  let named := fields.filter (·.name != typenameField)
  let definitions ← named.mapM fun s => (object.fields.get? s.name).map (s.name, ·)
  return (definitions.filter (·.2.kind = .property)).map Prod.fst

/-- The key of the objects or unions that a field holds. -/
def elementKey? (r : Registry) (f : Field) : Option String := f.type.key?.filter r.isComposite

def fieldUrl (r : Registry) (resource : String) (s : Selection) (f : Field)
    (call : Url.CallStyle) : String :=
  let select :=
    if f.kind = .entitySet ∨ f.kind = .singleton then
      (elementKey? r f).bind (selectList r · s.fields)
    else none
  Url.under resource s.name s.arguments call select

/-- Objects are to be parsed only if the hook lets them. -/
def preParseField (x : Execution) (s : Selection) (f : Field) (path : Path) : Resolver Unit :=
  match elementKey? x.registry f with
  | some key => x.preParse path s.name (x.registry.nameOf key)
  | none => return

/-- Hands the entities that came back to `onEntity`, each with its path. -/
def completeDecoded (onEntity : Entity → Path → Resolver Json) (path : Path) :
    Decoded → Resolver Json
  | .entities entities => return .array (← entities.zipIdx.mapM fun (e, i) =>
      onEntity e (path ++ [.index i]))
  | .entity e => onEntity e path
  | .text text => return .string text
  | .nothing => return .null

def fetch (x : Execution) (resource : String) (s : Selection) (f : Field) (call : Url.CallStyle)
    (path : Path) (onEntity : Entity → Path → Resolver Json) : Resolver Json := do
  x.preParseField s f path
  let url := fieldUrl x.registry resource s f call
  let some payload ← x.get path s.name url | return .null
  completeDecoded onEntity path (← lift (Decoded.ofPayload x.registry f.type payload url false))

/-- The value of a field of an object, errors not yet listed. -/
def fieldValue (x : Execution) (o : ObjectType) (parent : Parent) (s : Selection) (path : Path)
    (onEntity : Entity → Path → Resolver Json) : Resolver Json := do
  if s.name = typenameField then return .string o.name
  let unresolvable : FieldError := .unresolvableField o.name s.name
  let some f := o.fields.get? s.name | throw unresolvable
  let below (e : Entity) (call : Url.CallStyle) : Resolver Json :=
    match e.resourceUrl with
    | some resource => x.fetch resource s f call path onEntity
    | none => return .null
  match f.kind, parent with
  | .placeholder, _ => return .null
  | .entitySet, _ => x.fetch x.service.baseUrl s f .segment path onEntity
  | .singleton, _ => x.fetch x.service.baseUrl s f .segment path onEntity
  | .property, .entity e =>
    completeValue x.registry onEntity f.type ((e.data.get? s.name).getD .null) path
  | .navigation, .entity e =>
    match e.data.get? s.name with
    | some value => completeValue x.registry onEntity f.type value path
    | none => below e .segment
  | .function, .entity e => below e .function
  | .rawValue, .entity e => below e .segment
  | _, .root => throw unresolvable

mutual

/-- The value of a field, null if its error was recoverable. The fields of an entity in the value
are those of the entity's own object. -/
def resolveField (x : Execution) (o : ObjectType) (parent : Parent) (path : Path) :
    Selection → Resolver Json
  | ⟨responseKey, name, arguments, condition, fields⟩ =>
    let onEntity (e : Entity) (path : Path) : Resolver Json := do
      let some o := x.registry.object? e.typeKey | throw (.missingObject e.typeName)
      return .object (Json.Members.ofList (← resolveFields x o (.entity e) path fields))
    Resolver.recover x.exposure path
      (x.fieldValue o parent ⟨responseKey, name, arguments, condition, fields⟩ path onEntity)

/-- The values of those fields that are selected here, by response key. -/
def resolveFields (x : Execution) (o : ObjectType) (parent : Parent) (path : Path) :
    List Selection → Resolver (List (String × Json))
  | [] => return []
  | s :: rest =>
    if parent.selects s then do
      let value ← resolveField x o parent (path ++ [.field s.responseKey]) s
      return (s.responseKey, value) :: (← resolveFields x o parent path rest)
    else resolveFields x o parent path rest

end

/-- The fields of an object. Of those with the same response key the last one's value counts, in
the place of the first. -/
def resolveObject (x : Execution) (o : ObjectType) (parent : Parent) (fields : List Selection)
    (path : Path) : Resolver Json := do
  return .object (Json.Members.ofList (← x.resolveFields o parent path fields))

/-- The fields of an entity, which are those of its own type. -/
def resolveEntity (x : Execution) (fields : List Selection) (e : Entity) (path : Path) :
    Resolver Json := do
  let some o := x.registry.object? e.typeKey | throw (.missingObject e.typeName)
  x.resolveObject o (.entity e) fields path

def resolveQueryRoot (x : Execution) (fields : List Selection) (path : Path) : Resolver Json := do
  x.preParse path x.service.label x.registry.queryRoot.name
  x.resolveObject x.registry.queryRoot .root fields path

def resolveMutationRoot (x : Execution) (fields : List Selection) (path : Path) : Resolver Json :=
  x.resolveObject x.registry.mutationRoot .root fields path

/-- What is selected on a value that the host has. Objects in it are like those that the service
returns. -/
def resolveValue (x : Execution) (type : TypeReference) (value : Json) (fields : List Selection)
    (path : Path) : Resolver Json :=
  Resolver.recover x.exposure path
    (completeValue x.registry (x.resolveEntity fields) type value path)

/-- Calls a function of the service itself. Its result is the first item of a collection, or the
whole body: as JSON if it is that, as a text if not. -/
def callFunction (x : Execution) (function : String) (parameters : OrderedMap String Json)
    (firstOnly : Bool) : Resolver Json := do
  let url := Url.under x.service.baseUrl function parameters .function none
  let some payload ← x.get [] function url | return .null
  if firstOnly then
    match Json.collection? payload.text with
    | some items => return items.headD .null
    | none => throw .decode
  else return (Json.parse? payload.text).getD (.string payload.text)

end Execution

end ODataGraph
