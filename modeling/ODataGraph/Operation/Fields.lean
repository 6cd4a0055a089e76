import ODataGraph.Operation.Variables

/-! The fields that a list of selections comes to once its fragments are opened. -/

namespace ODataGraph.Graphql

structure Environment where
  fragments : OrderedMap String Fragment
  bindings : Bindings

structure SelectedField where
  responseKey : String
  name : String
  arguments : List (String × Value)
  selections : List Selection
  /-- The types of the fragments around the field, outermost first. -/
  conditions : List String

/-- Whether all of `@skip` and `@include` let their selection stand. Other directives do not
count. -/
def Directive.included (b : Bindings) : List Directive → Except RequestError Bool
  | [] => .ok true
  | d :: rest =>
    if d.name = "skip" ∨ d.name = "include" then do
      let some value := d.arguments.lookup "if" | throw (.invalidDirective d.name)
      let .bool condition ← value.evaluate b | throw (.invalidDirective d.name)
      if condition == (d.name == "include") then included b rest else return false
    else included b rest

mutual

/-- The fields of a selection, where `spread` gives those of a named fragment. -/
def Selection.fields (b : Bindings)
    (spread : List String → String → Except RequestError (List SelectedField))
    (conditions : List String) : Selection → Except RequestError (List SelectedField)
  | .field responseKey name arguments directives selections => do
    if ← Directive.included b directives then
      return [{ responseKey, name, arguments, selections, conditions }]
    else return []
  | .inline condition directives selections => do
    if ← Directive.included b directives then
      Selection.allFields b spread (conditions ++ condition.toList) selections
    else return []
  | .spread name directives => do
    if ← Directive.included b directives then spread conditions name else return []

def Selection.allFields (b : Bindings)
    (spread : List String → String → Except RequestError (List SelectedField))
    (conditions : List String) : List Selection → Except RequestError (List SelectedField)
  | [] => .ok []
  | s :: rest => do
    let fields ← Selection.fields b spread conditions s
    return fields ++ (← Selection.allFields b spread conditions rest)

end

namespace Environment

def unspread (e : Environment) (spreading : List String) : List String :=
  e.fragments.keys.filter (!spreading.contains ·)

theorem length_unspread_cons_lt {e : Environment} {spreading : List String} {name : String}
    (hn : ¬ spreading.contains name) (hk : name ∈ e.fragments.keys) :
    (e.unspread (name :: spreading)).length < (e.unspread spreading).length := by
  have hsub : e.unspread (name :: spreading) = (e.unspread spreading).filter (· != name) := by
    simp only [unspread, List.filter_filter]
    congr 1
    funext a
    by_cases ha : a = name <;> simp [ha]
  rw [hsub]
  apply List.length_filter_lt_length_iff_exists.2
  exact ⟨name, by simpa [unspread] using ⟨hk, by simpa using hn⟩, by simp⟩

/-- The fields of a named fragment within others that are being spread. No fragment can be opened
within itself. -/
def spreadFields (e : Environment) (spreading conditions : List String) (name : String) :
    Except RequestError (List SelectedField) :=
  if _hn : spreading.contains name then .error (.fragmentCycle name)
  else match _hf : e.fragments.get? name with
    | some f =>
      Selection.allFields e.bindings (spreadFields e (name :: spreading))
        (conditions ++ [f.condition]) f.selections
    | none => .error (.fragmentNotFound name)
termination_by (e.unspread spreading).length
decreasing_by exact length_unspread_cons_lt _hn (OrderedMap.mem_keys_iff.2 ⟨f, _hf⟩)

def fieldsOf (e : Environment) (selections : List Selection) :
    Except RequestError (List SelectedField) :=
  Selection.allFields e.bindings (e.spreadFields []) [] selections

end Environment

end ODataGraph.Graphql
