import ODataGraph.Proofs.Json.Content
import ODataGraph.Proofs.Operation.Argument

/-!
Constants in place of variables. Every JSON value can be written as a value without variables, and a
value comes to the same if this is done with what its variables are bound to.
-/

namespace ODataGraph

/-- Steps that all have a result still have it together when each is replaced by one with the same
result. -/
theorem mapM_map_eq_ok {α β γ ε : Type} {f : α → Except ε γ} {f' : β → Except ε γ} {g : α → β}
    {as : List α} {cs : List γ} (h : as.mapM f = .ok cs)
    (hg : ∀ a ∈ as, ∀ c, f a = .ok c → f' (g a) = .ok c) : (as.map g).mapM f' = .ok cs := by
  induction as generalizing cs with
  | nil =>
    cases h
    rfl
  | cons a as ih =>
    rw [List.mapM_cons] at h
    obtain ⟨c, hc, h⟩ := bind_eq_ok_iff.1 h
    obtain ⟨rest, hrest, h⟩ := bind_eq_ok_iff.1 h
    cases h
    have hfirst := hg a List.mem_cons_self c hc
    have hothers := ih hrest fun a ha => hg a (List.mem_cons_of_mem _ ha)
    rw [List.map_cons, List.mapM_cons]
    exact bind_eq_ok_iff.2 ⟨c, hfirst, bind_eq_ok_iff.2 ⟨rest, hothers, rfl⟩⟩

namespace Graphql

mutual

/-- A JSON value as it is written in a document, with numbers as `f` gives them. -/
def Value.ofJsonWith (f : Json.Number → Option Json.Number) : Json → Value
  | .null => .null
  | .bool value => .bool value
  | .number n => .number (f n)
  | .string text => .string text
  | .array items => .list (Value.ofItems f items)
  | .object members => .object (Value.ofMembers f members)

def Value.ofItems (f : Json.Number → Option Json.Number) : List Json → List Value
  | [] => []
  | item :: items => Value.ofJsonWith f item :: Value.ofItems f items

def Value.ofMembers (f : Json.Number → Option Json.Number) :
    List (String × Json) → List (String × Value)
  | [] => []
  | (name, value) :: members => (name, Value.ofJsonWith f value) :: Value.ofMembers f members

end

def Value.ofJson (value : Json) : Value := Value.ofJsonWith some value

mutual

/-- A value with other values in place of variables. -/
def Value.instantiate (σ : String → Value) : Value → Value
  | .variable name => σ name
  | .number value? => .number value?
  | .string text => .string text
  | .bool value => .bool value
  | .null => .null
  | .enum name => .enum name
  | .list items => .list (Value.instantiateItems σ items)
  | .object members => .object (Value.instantiateMembers σ members)

def Value.instantiateItems (σ : String → Value) : List Value → List Value
  | [] => []
  | item :: items => Value.instantiate σ item :: Value.instantiateItems σ items

def Value.instantiateMembers (σ : String → Value) : List (String × Value) → List (String × Value)
  | [] => []
  | (name, value) :: members =>
    (name, Value.instantiate σ value) :: Value.instantiateMembers σ members

end

variable {b : Bindings} {σ : String → Value} {f : Json.Number → Option Json.Number}

theorem Value.ofItems_eq_map (items : List Json) :
    Value.ofItems f items = items.map (Value.ofJsonWith f) := by
  induction items with
  | nil => rfl
  | cons item rest ih => rw [Value.ofItems, ih, List.map_cons]

theorem Value.ofMembers_eq_map (members : List (String × Json)) :
    Value.ofMembers f members = members.map fun m => (m.1, Value.ofJsonWith f m.2) := by
  induction members with
  | nil => rfl
  | cons member rest ih => rw [Value.ofMembers, ih, List.map_cons]

theorem Value.instantiateItems_eq_map (items : List Value) :
    Value.instantiateItems σ items = items.map (Value.instantiate σ) := by
  induction items with
  | nil => rfl
  | cons item rest ih => rw [Value.instantiateItems, ih, List.map_cons]

theorem Value.instantiateMembers_eq_map (members : List (String × Value)) :
    Value.instantiateMembers σ members = members.map fun m => (m.1, Value.instantiate σ m.2) := by
  induction members with
  | nil => rfl
  | cons member rest ih => rw [Value.instantiateMembers, ih, List.map_cons]

/-- What is written for a JSON value comes to it, but for its numbers, if no member of an object
replaces another. -/
theorem Value.evaluate_ofJsonWith {g : Json.Number → Json.Number} {value : Json}
    (h : value.HasDistinctKeys) (hg : ∀ n ∈ value.numbers, f n = some (g n)) :
    (Value.ofJsonWith f value).evaluate b = .ok (value.mapNumbers g) := by
  induction h with
  | null => rfl
  | bool => rfl
  | number n =>
    rw [Value.ofJsonWith, hg n (List.mem_singleton_self n)]
    rfl
  | string => rfl
  | @array items _ ih =>
    rw [Value.ofJsonWith, Value.ofItems_eq_map, Value.evaluate_list, Json.mapNumbers,
      Json.mapItems_eq_map]
    have hitems : items.mapM (fun v => (pure (v.mapNumbers g) : Except RequestError Json)) =
        .ok (items.map (Json.mapNumbers g)) := List.mapM_pure
    refine bind_eq_ok_iff.2 ⟨_, mapM_map_eq_ok hitems fun v hv _ h => ?_, rfl⟩
    cases h
    exact ih v hv fun n hn => hg n (Json.mem_numbersOfItems.2 ⟨v, hv, hn⟩)
  | @object members hnames _ ih =>
    have hentries :
        (OrderedMap.ofList (members.map fun m => (m.1, Value.ofJsonWith f m.2))).entries =
          members.map fun m => (m.1, Value.ofJsonWith f m.2) := by
      rw [OrderedMap.ofList_map, OrderedMap.entries_map, OrderedMap.entries_ofList hnames]
    rw [Value.ofJsonWith, Value.ofMembers_eq_map, Value.evaluate_object, hentries, Json.mapNumbers,
      Json.mapMembers_eq_map]
    have hmembers : members.mapM (fun m =>
        (pure (m.1, m.2.mapNumbers g) : Except RequestError (String × Json))) =
          .ok (members.map fun m => (m.1, m.2.mapNumbers g)) := List.mapM_pure
    refine bind_eq_ok_iff.2 ⟨_, mapM_map_eq_ok hmembers fun m hm _ h => ?_, rfl⟩
    cases h
    rw [ih m hm fun n hn => hg n (Json.mem_numbersOfMembers.2 ⟨m, hm, hn⟩)]
    rfl

theorem Value.evaluate_ofJson {value : Json} (h : value.HasDistinctKeys) :
    (Value.ofJson value).evaluate b = .ok value := by
  have heval := Value.evaluate_ofJsonWith (b := b) (f := some) (g := fun n => n) h fun _ _ => rfl
  rwa [Json.mapNumbers_eq_self fun _ _ => rfl] at heval

/-- A value comes to the same if each variable is replaced by something that comes to what it is
bound to. -/
theorem Value.evaluate_instantiate {b' : Bindings}
    (hσ : ∀ name j, b.get? name = some j → (σ name).evaluate b' = .ok j) (v : Value) {j : Json}
    (h : v.evaluate b = .ok j) : (v.instantiate σ).evaluate b' = .ok j := by
  cases v with
  | «variable» name =>
    exact hσ name j (Value.evaluate_variable_eq_ok_iff.1 h)
  | list items =>
    rw [Value.evaluate_list] at h
    obtain ⟨js, hjs, h⟩ := bind_eq_ok_iff.1 h
    rw [Value.instantiate, Value.instantiateItems_eq_map, Value.evaluate_list]
    refine bind_eq_ok_iff.2 ⟨js, mapM_map_eq_ok hjs fun item hitem _ => ?_, h⟩
    exact Value.evaluate_instantiate hσ item
  | object members =>
    rw [Value.evaluate_object] at h
    obtain ⟨js, hjs, h⟩ := bind_eq_ok_iff.1 h
    rw [Value.instantiate, Value.instantiateMembers_eq_map, Value.evaluate_object,
      OrderedMap.ofList_map, OrderedMap.entries_map]
    refine bind_eq_ok_iff.2 ⟨js, mapM_map_eq_ok hjs fun m hm c hc => ?_, h⟩
    have hmem := OrderedMap.mem_of_get?_ofList (OrderedMap.mem_entries_iff.1 hm)
    have hlt : sizeOf m.2 < sizeOf (Value.object members) := by
      have hmember := List.sizeOf_lt_of_mem hmem
      rw [Prod.mk.sizeOf_spec] at hmember
      rw [Value.object.sizeOf_spec]
      omega
    obtain ⟨key, v⟩ := m
    cases hv : v.evaluate b with
    | error error =>
      rw [hv] at hc
      cases hc
    | ok value =>
      rw [hv] at hc
      cases hc
      rw [Value.evaluate_instantiate hσ v hv]
      rfl
  | number value? =>
    cases value? <;> cases h
    rfl
  | _ => exact h
termination_by sizeOf v

end Graphql

end ODataGraph
