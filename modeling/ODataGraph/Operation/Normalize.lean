import ODataGraph.Operation.Fields
import ODataGraph.Operation.Scope

/-!
Turning what a document selects into selections without fragments, directives and variables.
Whatever the types do not declare is refused. A fragment that reaches itself through fields may go
on being opened, so that there need not be an end to it.
-/

namespace ODataGraph

/-- What a request comes to, or why it is refused; `none` where that is never known. -/
abbrev Normalization := ExceptT RequestError Option

def Normalization.lift (r : Except RequestError α) : Normalization α := ExceptT.mk (some r)

namespace Graphql

/-- Fields that hold leaves, or `__typename`, select nothing. -/
def SelectedField.requireLeaf (f : SelectedField) : Except RequestError Unit :=
  if f.selections.isEmpty then .ok () else .error (.selectionNotAllowed f.name)

/-- A field apart from what is selected on its value, with the scope of that if the value is an
object or a union. -/
structure FieldHead where
  selection : ODataGraph.Selection
  below : Option Scope

namespace Environment

open Normalization (lift)

/-- The arguments of a field with declared ones: only these are given, and those that cannot be
null are. -/
def argumentsOf (e : Environment) (declared : OrderedMap String Argument) (f : SelectedField) :
    Except RequestError (OrderedMap String Json) := do
  let values ← f.arguments.foldlM (fun values (name, value) => do
    if !declared.contains name then throw (.unknownArgument f.name name)
    return values.insert name (← value.evaluate e.bindings)) OrderedMap.empty
  declared.entries.forM fun (name, a) => do
    let isRequired : Bool := match a.type with
      | .nonNull _ => true
      | _ => false
    if isRequired ∧ ((values.get? name).getD .null).isNull then
      throw (.missingArgument f.name name)
  return values

/-- The scope in which a field's selections stand: something is selected on an object or a union,
else nothing. -/
def scopeBelow (r : Registry) (definition : Field) (f : SelectedField) :
    Except RequestError (Option Scope) :=
  match definition.type.key?.bind (Scope.ofType? r) with
  | some scope =>
    if f.selections.isEmpty then .error (.selectionRequired f.name) else .ok (some scope)
  | none => do
    f.requireLeaf
    return none

def headOf (e : Environment) (s : Scope) (f : SelectedField) : Except RequestError FieldHead := do
  let narrowed ← s.narrow f.conditions
  let condition := s.condition narrowed
  if f.name = typenameField then
    f.requireLeaf
    return ⟨{ responseKey := f.responseKey, name := f.name, condition }, none⟩
  let some definition := narrowed.object.bind (·.fields.get? f.name)
    | throw (.unknownField ((condition.map (·.typeName)).getD s.typeName) f.name)
  let arguments ← e.argumentsOf definition.arguments f
  let below ← scopeBelow s.registry definition f
  return ⟨{ responseKey := f.responseKey, name := f.name, arguments, condition }, below⟩

abbrev Below := Scope → List Selection → Normalization (List ODataGraph.Selection)

/-- Normalizes selections, and what is selected on the values of their fields in turn. -/
def normalize (e : Environment) (s : Scope) (selections : List Selection) :
    Option (Except RequestError (List ODataGraph.Selection)) := ExceptT.run do
  (← lift (e.fieldsOf selections)).mapM fun f => do
    let head ← lift (e.headOf s f)
    match head.below with
    | some scope =>
      let fields ← show Normalization _ from e |>.normalize scope f.selections
      return { head.selection with fields }
    | none => return head.selection
partial_fixpoint

end Environment

end Graphql

end ODataGraph
