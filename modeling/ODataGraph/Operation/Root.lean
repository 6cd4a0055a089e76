import ODataGraph.Engine.Basic
import ODataGraph.Graphql.Reader
import ODataGraph.Operation.Normalize
import ODataGraph.Operation.Request

/-! The operation that a request asks for, as an engine executes it. -/

namespace ODataGraph

inductive RootTarget where
  | typename
  | service (service : ExposedService)
  | host (field : BoundHostField) (service : ExposedService)

structure RootField where
  responseKey : String
  target : RootTarget
  arguments : OrderedMap String Json := ∅
  fields : List Selection := []

structure Operation where
  kind : RootKind
  fields : List RootField

namespace Graphql

/-- The operation with a name, or the only one. -/
def Operations.select (name : Option String) : Operations → Except RequestError OperationDefinition
  | .anonymous o =>
    match name with
    | some name => .error (.operationNotFound name)
    | none => .ok o
  | .named operations =>
    match name with
    | some name =>
      match operations.get? name with
      | some o => .ok o
      | none => .error (.operationNotFound name)
    | none =>
      match operations.values with
      | [o] => .ok o
      | _ => .error .operationNameRequired

def OperationKind.root : OperationKind → Except RequestError RootKind
  | .query => .ok .query
  | .mutation => .ok .mutation
  | .subscription => .error .subscription

end Graphql

/-- An operation of a document with the fragments around its root fields opened. -/
structure OpenedOperation where
  env : Graphql.Environment
  kind : RootKind
  fields : List Graphql.SelectedField

namespace OpenedOperation

def ofDocument (document : Graphql.Document) (request : RawRequest) :
    Except RequestError OpenedOperation := do
  let definition ← document.operations.select request.operationName
  let kind ← definition.kind.root
  let env : Graphql.Environment :=
    ⟨document.fragments, ← definition.bindVariables request.bindings⟩
  return ⟨env, kind, ← env.fieldsOf definition.selections⟩

def ofRequest (request : RawRequest) : Except RequestError OpenedOperation := do
  let document ← (Graphql.Document.parse request.query).mapError .document
  ofDocument document request

end OpenedOperation

namespace Operation

open Graphql (Environment SelectedField)
open Normalization (lift)

/-- A root field apart from what is selected on its value, with the scope of that if there is
any. -/
structure Head where
  field : RootField
  below : Option Scope

/-- A root field of a service. It takes no arguments. -/
def serviceHead (env : Environment) (kind : RootKind) (s : ExposedService) (f : SelectedField) :
    Except RequestError Head := do
  if f.selections.isEmpty then throw (.selectionRequired f.name)
  let arguments ← env.argumentsOf ∅ f
  return ⟨{ responseKey := f.responseKey, target := .service s, arguments },
    some (.root s.registry (s.root kind))⟩

def hostHead (env : Environment) (h : BoundHostField) (s : ExposedService) (f : SelectedField) :
    Except RequestError Head := do
  let arguments ← env.argumentsOf h.field.arguments f
  let below ← Environment.scopeBelow s.registry h.field f
  return ⟨{ responseKey := f.responseKey, target := .host h s, arguments }, below⟩

def hostField? (e : Engine) (kind : RootKind) (name : String) :
    Option (BoundHostField × ExposedService) := do
  if kind ≠ .query then none
  let h ← e.hostFields.get? name
  return (h, ← e.services.get? h.service)

/-- Fragments around a root field must be on the root itself. -/
def headOf (e : Engine) (env : Environment) (kind : RootKind) (f : SelectedField) :
    Except RequestError Head := do
  if let some condition := f.conditions.find? (· ≠ kind.typeName) then
    throw (.invalidCondition condition kind.typeName)
  if f.name = typenameField then
    f.requireLeaf
    return ⟨{ responseKey := f.responseKey, target := .typename }, none⟩
  match e.services.get? f.name, hostField? e kind f.name with
  | some s, _ => serviceHead env kind s f
  | none, some (h, s) => hostHead env h s f
  | none, none => throw (.unknownField kind.typeName f.name)

def completeField (e : Engine) (o : OpenedOperation) (below : Environment.Below)
    (f : SelectedField) : Normalization RootField := do
  let head ← lift (headOf e o.env o.kind f)
  match head.below with
  | some scope => return { head.field with fields := ← below scope f.selections }
  | none => return head.field

def ofOpened (e : Engine) (o : OpenedOperation) (below : Environment.Below) :
    Normalization Operation := do
  return ⟨o.kind, ← o.fields.mapM (completeField e o below)⟩

def ofRequest (e : Engine) (request : RawRequest) : Normalization Operation := do
  let o ← lift (OpenedOperation.ofRequest request)
  ofOpened e o o.env.normalize

end Operation

end ODataGraph
