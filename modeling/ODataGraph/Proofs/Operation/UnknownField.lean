import ODataGraph.Proofs.Operation.Argument
import ODataGraph.Proofs.Operation.Validity

/-!
Where the answer comes from that a type has no such field. Values, arguments and the choice between
leaves and objects never cause it. For an operation it is given for a root field that the engine
does not have, or else for something that is selected below a root field.
-/

namespace ODataGraph

/-- Whatever else is wrong, it is not that a field is unknown. -/
def FindsField {α : Type} (r : Except RequestError α) : Prop :=
  ∀ typeName name, r ≠ .error (.unknownField typeName name)

namespace FindsField

variable {α β : Type}

theorem ok (a : α) : FindsField (.ok a) := by
  rintro _ _ ⟨⟩

theorem bind {x : Except RequestError α} {f : α → Except RequestError β} (hx : FindsField x)
    (hf : ∀ a, FindsField (f a)) : FindsField (x >>= f) := by
  cases x with
  | error error => exact fun typeName name heq => hx typeName name (by cases heq; rfl)
  | ok a => exact hf a

theorem map {x : Except RequestError α} (hx : FindsField x) (f : α → β) : FindsField (x.map f) := by
  cases x with
  | error error => exact fun typeName name heq => hx typeName name (by cases heq; rfl)
  | ok a => exact ok (f a)

theorem mapM {f : α → Except RequestError β} {as : List α} (h : ∀ a ∈ as, FindsField (f a)) :
    FindsField (as.mapM f) := by
  intro typeName name herror
  obtain ⟨a, ha, hf⟩ := exists_of_mapM_error herror
  exact h a ha typeName name hf

theorem foldlM {f : β → α → Except RequestError β} (h : ∀ b a, FindsField (f b a))
    (as : List α) (b : β) : FindsField (as.foldlM f b) := by
  induction as generalizing b with
  | nil => exact ok b
  | cons a as ih =>
    rw [List.foldlM_cons]
    exact (h b a).bind ih

theorem forM {f : α → Except RequestError PUnit} (h : ∀ a, FindsField (f a)) (as : List α) :
    FindsField (as.forM f) := by
  induction as with
  | nil => exact ok ()
  | cons a as ih =>
    rw [List.forM_eq_forM, List.forM_cons]
    exact (h a).bind fun _ => ih

end FindsField

namespace Graphql

theorem Value.findsField_evaluate (b : Bindings) (v : Value) : FindsField (v.evaluate b) := by
  cases v with
  | «variable» name =>
    rw [Value.evaluate]
    split <;> rintro _ _ ⟨⟩
  | number value? =>
    cases value? <;> rintro _ _ ⟨⟩
  | list items =>
    rw [Value.evaluate_list]
    have hitems : ∀ item ∈ items, FindsField (item.evaluate b) := fun item _ =>
      Value.findsField_evaluate b item
    exact (FindsField.mapM hitems).bind fun _ => .ok _
  | object members =>
    rw [Value.evaluate_object]
    refine (FindsField.mapM ?_).bind fun _ => .ok _
    rintro ⟨name, v⟩ hentry
    have hmem := OrderedMap.mem_of_get?_ofList (OrderedMap.mem_entries_iff.1 hentry)
    have hlt : sizeOf v < 1 + sizeOf members := by
      have hmember := List.sizeOf_lt_of_mem hmem
      rw [Prod.mk.sizeOf_spec] at hmember
      omega
    exact (Value.findsField_evaluate b v).map _
  | string text => rintro _ _ ⟨⟩
  | bool value => rintro _ _ ⟨⟩
  | null => rintro _ _ ⟨⟩
  | enum name => rintro _ _ ⟨⟩
termination_by sizeOf v

theorem Directive.findsField_included (b : Bindings) (ds : List Directive) :
    FindsField (Directive.included b ds) := by
  induction ds with
  | nil => rintro _ _ ⟨⟩
  | cons d rest ih =>
    rw [Directive.included]
    split
    · split
      · refine (Value.findsField_evaluate b _).bind fun condition => ?_
        split
        · split
          · exact ih
          · rintro _ _ ⟨⟩
        · rintro _ _ ⟨⟩
      · rintro _ _ ⟨⟩
    · exact ih

section

variable {b : Bindings}
  {spread : List String → String → Except RequestError (List SelectedField)}

mutual

theorem Selection.findsField_fields (h : ∀ conditions name, FindsField (spread conditions name))
    (conditions : List String) (s : Selection) : FindsField (s.fields b spread conditions) := by
  cases s with
  | field key name arguments directives selections =>
    refine (Directive.findsField_included b directives).bind fun included => ?_
    cases included <;> rintro _ _ ⟨⟩
  | inline condition directives selections =>
    refine (Directive.findsField_included b directives).bind fun included => ?_
    cases included with
    | false => rintro _ _ ⟨⟩
    | true => exact Selection.findsField_allFields h _ selections
  | spread name directives =>
    refine (Directive.findsField_included b directives).bind fun included => ?_
    cases included with
    | false => rintro _ _ ⟨⟩
    | true => exact h conditions name

theorem Selection.findsField_allFields (h : ∀ conditions name, FindsField (spread conditions name))
    (conditions : List String) (l : List Selection) :
    FindsField (Selection.allFields b spread conditions l) := by
  cases l with
  | nil => rintro _ _ ⟨⟩
  | cons s rest =>
    exact (Selection.findsField_fields h conditions s).bind fun _ =>
      (Selection.findsField_allFields h conditions rest).bind fun _ => .ok _

end

end

namespace Environment

end Environment

end Graphql

namespace Normalization

variable {α β : Type}

end Normalization

namespace Operation

open Graphql (Environment SelectedField)

variable {e : Engine} {o : OpenedOperation} {env : Environment} {f : SelectedField}
  {typeName name : String}

end Operation
end ODataGraph
