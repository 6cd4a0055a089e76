import ODataGraph.Operation.Normalize
import ODataGraph.Proofs.Sequence

/-!
What is given for the arguments of a field. Values have a meaning if all variables are bound that
they use, and a field takes what is given if each of its arguments gets a value that it can have.
-/

namespace ODataGraph

namespace OrderedMap

variable {α : Type u} {β : Type v} {γ : Type w} [DecidableEq α]

omit [DecidableEq α] in
theorem entries_map (m : OrderedMap α β) (f : α → β → γ) :
    (m.map f).entries = m.entries.map fun e => (e.1, f e.1 e.2) := rfl

theorem map_insert (m : OrderedMap α β) (f : β → γ) (k : α) (v : β) :
    (m.insert k v).map (fun _ => f) = (m.map fun _ => f).insert k (f v) := by
  apply ext
  by_cases hk : k ∈ m.keys
  · rw [insert, insert, dif_pos hk, dif_pos (by rwa [keys_map]), entries_map, entries_map,
      entries_map, entries_map, List.map_map, List.map_map]
    refine List.map_congr_left fun e _ => ?_
    simp only [Function.comp_apply, apply_ite f]
  · rw [entries_insert_of_not_mem (by rwa [keys_map]), entries_map, entries_map,
      entries_insert_of_not_mem hk, List.map_append]
    rfl

/-- Values can be changed before or after the last of those with one key is taken. -/
theorem ofList_map (f : β → γ) (l : List (α × β)) :
    ofList (l.map fun e => (e.1, f e.2)) = (ofList l).map fun _ => f := by
  have hfoldl : ∀ (l : List (α × β)) (m : OrderedMap α β),
      (l.map fun e => (e.1, f e.2)).foldl (fun m e => m.insert e.1 e.2) (m.map fun _ => f) =
        (l.foldl (fun m e => m.insert e.1 e.2) m).map fun _ => f := by
    intro l
    induction l with
    | nil => exact fun _ => rfl
    | cons e rest ih =>
      intro m
      rw [List.map_cons, List.foldl_cons, List.foldl_cons, ← map_insert, ih]
  exact hfoldl l ∅

end OrderedMap

namespace Graphql

variable {b : Bindings}

/-- A value uses a variable. Members of an object that others of their name replace do not count. -/
inductive Value.Uses (name : String) : Value → Prop
  | variable : Uses name (.variable name)
  | item {items : List Value} {v : Value} (hv : v ∈ items) (h : v.Uses name) :
      Uses name (.list items)
  | member {members : List (String × Value)} {key : String} {v : Value}
      (hv : (OrderedMap.ofList members).get? key = some v) (h : v.Uses name) :
      Uses name (.object members)

theorem Value.check_of_mem_items {items : List Value} (h : Value.checkItems items = .ok ())
    {v : Value} (hv : v ∈ items) : v.check = .ok () := by
  induction items with
  | nil => cases hv
  | cons item rest ih =>
    obtain ⟨_, hitem, hrest⟩ := bind_eq_ok_iff.1 h
    rcases List.mem_cons.1 hv with rfl | hv
    · exact hitem
    · exact ih hrest hv

theorem Value.check_of_mem_members {members : List (String × Value)}
    (h : Value.checkMembers members = .ok ()) {key : String} {v : Value} (hv : (key, v) ∈ members) :
    v.check = .ok () := by
  induction members with
  | nil => cases hv
  | cons member rest ih =>
    obtain ⟨name, value⟩ := member
    obtain ⟨_, hvalue, hrest⟩ := bind_eq_ok_iff.1 h
    rcases List.mem_cons.1 hv with heq | hv
    · cases heq
      exact hvalue
    · exact ih hrest hv

theorem Value.evaluateItems_eq_mapM (items : List Value) :
    Value.evaluateItems b items = items.mapM (Value.evaluate b) := by
  induction items with
  | nil => rfl
  | cons item rest ih =>
    rw [List.mapM_cons, ← ih]
    rfl

theorem Value.evaluateMembers_eq_map (members : List (String × Value)) :
    Value.evaluateMembers b members = members.map fun m => (m.1, Value.evaluate b m.2) := by
  induction members with
  | nil => rfl
  | cons member rest ih =>
    rw [List.map_cons, ← ih]
    rfl

theorem Value.evaluate_variable_eq_ok_iff {name : String} {j : Json} :
    Value.evaluate b (.variable name) = .ok j ↔ b.get? name = some j := by
  rw [Value.evaluate]
  cases b.get? name with
  | some value => exact ⟨fun h => congrArg some (Except.ok.inj h), fun h => by cases h; rfl⟩
  | none => exact ⟨nofun, nofun⟩

/-- Of the members of an object those have to have a value that are left when the last one of each
name is taken. -/
theorem Value.evaluate_object (members : List (String × Value)) :
    Value.evaluate b (.object members) = (OrderedMap.ofList members).entries.mapM
      (fun m => (m.2.evaluate b).map (m.1, ·)) >>= fun js => .ok (.object js) := by
  rw [Value.evaluate, Value.evaluateMembers_eq_map, OrderedMap.ofList_map, OrderedMap.entries_map]
  rw [mapM_congr (List.forall₂_map_left_iff.2 (List.forall₂_same.2 fun _ _ => rfl))]
  rfl

theorem Value.evaluate_list (items : List Value) :
    Value.evaluate b (.list items) =
      items.mapM (Value.evaluate b) >>= fun js => .ok (.array js) := by
  rw [← Value.evaluateItems_eq_mapM]
  change (Value.evaluateItems b items).map Json.array = _
  cases Value.evaluateItems b items <;> rfl

theorem Value.exists_evaluate_variable {name : String} :
    (∃ j, Value.evaluate b (.variable name) = .ok j) ↔ name ∈ b.keys := by
  simp only [Value.evaluate_variable_eq_ok_iff]
  exact OrderedMap.mem_keys_iff.symm

theorem Value.exists_evaluate_list {items : List Value} :
    (∃ j, Value.evaluate b (.list items) = .ok j) ↔
      ∀ v ∈ items, ∃ j, Value.evaluate b v = .ok j := by
  rw [Value.evaluate_list, exists_bind_ok_iff, exists_mapM_eq_ok_iff]

theorem Value.exists_evaluate_object {members : List (String × Value)} :
    (∃ j, Value.evaluate b (.object members) = .ok j) ↔
      ∀ name v, (OrderedMap.ofList members).get? name = some v →
        ∃ j, Value.evaluate b v = .ok j := by
  rw [Value.evaluate_object, exists_bind_ok_iff, exists_mapM_eq_ok_iff]
  constructor
  · intro h name v hget
    obtain ⟨_, hj⟩ := h (name, v) (OrderedMap.mem_entries_iff.2 hget)
    cases hvalue : Value.evaluate b v with
    | ok j => exact ⟨j, rfl⟩
    | error error =>
      rw [hvalue] at hj
      cases hj
  · rintro h ⟨name, v⟩ hmem
    obtain ⟨j, hj⟩ := h name v (OrderedMap.mem_entries_iff.1 hmem)
    exact ⟨(name, j), by rw [hj]; rfl⟩

/-- A value of a document that is within limits has a meaning if the variables are bound that it
uses. -/
theorem Value.exists_evaluate_iff (v : Value) (hv : v.check = .ok ()) :
    (∃ j, Value.evaluate b v = .ok j) ↔ ∀ name, v.Uses name → name ∈ b.keys := by
  cases v with
  | «variable» name =>
    rw [Value.exists_evaluate_variable]
    constructor
    · rintro h _ ⟨⟩
      exact h
    · exact fun h => h name .variable
  | number value? =>
    have hsome : value?.isSome := by
      rw [Value.check] at hv
      split at hv
      · assumption
      · cases hv
    obtain ⟨n, rfl⟩ := Option.isSome_iff_exists.1 hsome
    exact ⟨fun _ => nofun, fun _ => ⟨_, rfl⟩⟩
  | list items =>
    have hiff : ∀ item ∈ items, (∃ j, Value.evaluate b item = .ok j) ↔
        ∀ name, item.Uses name → name ∈ b.keys := fun item hitem =>
      Value.exists_evaluate_iff item (Value.check_of_mem_items hv hitem)
    rw [Value.exists_evaluate_list]
    constructor
    · intro h name huses
      cases huses with
      | item hitem huses => exact (hiff _ hitem).1 (h _ hitem) name huses
    · exact fun h item hitem => (hiff item hitem).2 fun name huses => h name (.item hitem huses)
  | object members =>
    have hiff : ∀ key v, (OrderedMap.ofList members).get? key = some v →
        ((∃ j, Value.evaluate b v = .ok j) ↔ ∀ name, v.Uses name → name ∈ b.keys) := by
      intro key v hget
      have hmem := OrderedMap.mem_of_get?_ofList hget
      have hlt : sizeOf v < sizeOf (Value.object members) := by
        have hmember := List.sizeOf_lt_of_mem hmem
        rw [Prod.mk.sizeOf_spec] at hmember
        rw [Value.object.sizeOf_spec]
        omega
      exact Value.exists_evaluate_iff v (Value.check_of_mem_members hv hmem)
    rw [Value.exists_evaluate_object]
    constructor
    · intro h name huses
      cases huses with
      | member hget huses => exact (hiff _ _ hget).1 (h _ _ hget) name huses
    · exact fun h key v hget =>
        (hiff key v hget).2 fun name huses => h name (.member hget huses)
  | string text => exact ⟨fun _ => nofun, fun _ => ⟨_, rfl⟩⟩
  | bool value => exact ⟨fun _ => nofun, fun _ => ⟨_, rfl⟩⟩
  | null => exact ⟨fun _ => nofun, fun _ => ⟨_, rfl⟩⟩
  | enum name => exact ⟨fun _ => nofun, fun _ => ⟨_, rfl⟩⟩
termination_by sizeOf v

/-- Whether a value is null: it is written so, or it is a variable that is bound to null. -/
def Value.isNull (b : Bindings) : Value → Bool
  | .null => true
  | .variable name => (b.get? name).any Json.isNull
  | _ => false

theorem Value.isNull_evaluate {v : Value} {j : Json} (h : Value.evaluate b v = .ok j) :
    j.isNull = v.isNull b := by
  cases v with
  | «variable» name =>
    rw [Value.isNull, Value.evaluate_variable_eq_ok_iff.1 h]
    rfl
  | number value? =>
    cases value? <;> cases h
    rfl
  | list items =>
    rw [Value.evaluate_list] at h
    obtain ⟨_, _, ⟨⟩⟩ := bind_eq_ok_iff.1 h
    rfl
  | object members =>
    rw [Value.evaluate_object] at h
    obtain ⟨_, _, ⟨⟩⟩ := bind_eq_ok_iff.1 h
    rfl
  | _ =>
    cases h
    rfl

namespace Environment

variable {e : Environment} {declared : OrderedMap String Argument} {f : SelectedField}
variable {given : List (String × Value)} {values : OrderedMap String Json}

def evaluateGiven (e : Environment) (a : String × Value) : Except RequestError (String × Json) :=
  (a.2.evaluate e.bindings).map (a.1, ·)

/-- The values of given arguments, in their order. -/
def evaluateAll (e : Environment) (given : List (String × Value)) :
    Except RequestError (List (String × Json)) :=
  given.mapM e.evaluateGiven

theorem evaluateGiven_eq_ok_iff {a : String × Value} {j : String × Json} :
    e.evaluateGiven a = .ok j ↔ ∃ value, a.2.evaluate e.bindings = .ok value ∧ j = (a.1, value) := by
  rw [evaluateGiven]
  cases a.2.evaluate e.bindings with
  | ok value =>
    constructor
    · intro h
      cases h
      exact ⟨value, rfl, rfl⟩
    · rintro ⟨_, ⟨⟩, rfl⟩
      rfl
  | error error => exact ⟨nofun, nofun⟩

theorem exists_evaluateAll_iff : (∃ js, e.evaluateAll given = .ok js) ↔
    ∀ a ∈ given, ∃ value, a.2.evaluate e.bindings = .ok value := by
  rw [evaluateAll, exists_mapM_eq_ok_iff]
  apply forall₂_congr
  intro a _
  constructor
  · rintro ⟨j, hj⟩
    obtain ⟨value, hvalue, _⟩ := evaluateGiven_eq_ok_iff.1 hj
    exact ⟨value, hvalue⟩
  · rintro ⟨value, hvalue⟩
    exact ⟨_, evaluateGiven_eq_ok_iff.2 ⟨value, hvalue, rfl⟩⟩

/-- The value of a given argument, or null if it has none. -/
def valueOf (e : Environment) (v : Value) : Json := (v.evaluate e.bindings).toOption.getD .null

theorem evaluateAll_eq_map {js : List (String × Json)} (h : e.evaluateAll given = .ok js) :
    js = given.map fun a => (a.1, e.valueOf a.2) := by
  induction given generalizing js with
  | nil =>
    cases h
    rfl
  | cons a rest ih =>
    rw [evaluateAll, List.mapM_cons] at h
    obtain ⟨first, hfirst, h⟩ := bind_eq_ok_iff.1 h
    obtain ⟨others, hothers, h⟩ := bind_eq_ok_iff.1 h
    cases h
    obtain ⟨value, hvalue, rfl⟩ := evaluateGiven_eq_ok_iff.1 hfirst
    rw [ih hothers, List.map_cons, valueOf, hvalue]
    rfl

/-- Given arguments are ones that a field with declared ones can have: they are declared and use
bound variables only, and those that cannot be null get a value that is not. Of several values for
one argument the last one counts. -/
structure Takes (e : Environment) (declared : OrderedMap String Argument)
    (given : List (String × Value)) : Prop where
  known : ∀ name v, (name, v) ∈ given → name ∈ declared.keys
  bound : ∀ name v, (name, v) ∈ given → ∀ x, v.Uses x → x ∈ e.bindings.keys
  required : ∀ name a type, declared.get? name = some a → a.type = .nonNull type →
    ∃ v, (OrderedMap.ofList given).get? name = some v ∧ v.isNull e.bindings = false

/-- One more given argument is put into a map. -/
def give (e : Environment) (declared : OrderedMap String Argument) (name : String)
    (values : OrderedMap String Json) (a : String × Value) :
    Except RequestError (OrderedMap String Json) := do
  if !declared.contains a.1 then throw (.unknownArgument name a.1)
  return values.insert a.1 (← a.2.evaluate e.bindings)

def requireGiven (name : String) (values : OrderedMap String Json) (a : String × Argument) :
    Except RequestError Unit := do
  let isRequired : Bool := match a.2.type with
    | .nonNull _ => true
    | _ => false
  if isRequired ∧ ((values.get? a.1).getD .null).isNull then throw (.missingArgument name a.1)

theorem argumentsOf_eq (e : Environment) (declared : OrderedMap String Argument)
    (f : SelectedField) : e.argumentsOf declared f = (do
      let values ← f.arguments.foldlM (e.give declared f.name) OrderedMap.empty
      declared.entries.forM (requireGiven f.name values)
      return values) := rfl

theorem give_eq_ok_iff {name : String} {a : String × Value} {values' : OrderedMap String Json} :
    e.give declared name values a = .ok values' ↔ a.1 ∈ declared.keys ∧
      ∃ j, a.2.evaluate e.bindings = .ok j ∧ values' = values.insert a.1 j := by
  rw [give]
  by_cases hdeclared : a.1 ∈ declared.keys
  · have hcontains : declared.contains a.1 = true := OrderedMap.contains_iff.2 hdeclared
    rw [hcontains]
    constructor
    · intro h
      obtain ⟨j, hj, h⟩ := bind_eq_ok_iff.1 h
      cases h
      exact ⟨hdeclared, j, hj, rfl⟩
    · rintro ⟨_, j, hj, rfl⟩
      exact bind_eq_ok_iff.2 ⟨j, hj, rfl⟩
  · have hcontains : declared.contains a.1 = false := OrderedMap.contains_eq_false_iff.2 hdeclared
    rw [hcontains]
    exact ⟨nofun, fun h => absurd h.1 hdeclared⟩

theorem requireGiven_eq_ok_iff {name : String} {a : String × Argument} :
    requireGiven name values a = .ok () ↔
      ∀ type, a.2.type = .nonNull type → ∃ j, values.get? a.1 = some j ∧ j.isNull = false := by
  rw [requireGiven]
  cases htype : a.2.type with
  | nonNull type =>
    cases hget : values.get? a.1 with
    | none => exact ⟨nofun, fun h => absurd (h type rfl) nofun⟩
    | some j =>
      cases hnull : j.isNull with
      | true => simp [hnull]
      | false => simp [hnull, pure, Except.pure]
  | _ => exact ⟨fun _ => nofun, fun _ => rfl⟩

/-- Given arguments are put into a map if they are declared and all have a value. -/
theorem foldlM_give_eq_ok_iff {name : String} {values' : OrderedMap String Json} :
    given.foldlM (e.give declared name) values = .ok values' ↔
      (∀ a ∈ given, a.1 ∈ declared.keys) ∧
        ∃ js, e.evaluateAll given = .ok js ∧
          values' = js.foldl (fun m j => m.insert j.1 j.2) values := by
  induction given generalizing values with
  | nil =>
    constructor
    · intro h
      cases h
      exact ⟨nofun, [], rfl, rfl⟩
    · rintro ⟨_, js, hjs, rfl⟩
      cases hjs
      rfl
  | cons a rest ih =>
    rw [List.foldlM_cons, bind_eq_ok_iff, List.forall_mem_cons, evaluateAll, List.mapM_cons]
    constructor
    · rintro ⟨next, hnext, h⟩
      obtain ⟨hknown, j, hj, rfl⟩ := give_eq_ok_iff.1 hnext
      obtain ⟨hrest, js, hjs, rfl⟩ := ih.1 h
      refine ⟨⟨hknown, hrest⟩, (a.1, j) :: js, ?_, rfl⟩
      have hfirst : e.evaluateGiven a = .ok (a.1, j) := evaluateGiven_eq_ok_iff.2 ⟨j, hj, rfl⟩
      exact bind_eq_ok_iff.2 ⟨_, hfirst, bind_eq_ok_iff.2 ⟨js, hjs, rfl⟩⟩
    · rintro ⟨⟨hknown, hrest⟩, js, hjs, rfl⟩
      obtain ⟨first, hfirst, h⟩ := bind_eq_ok_iff.1 hjs
      obtain ⟨others, hothers, h⟩ := bind_eq_ok_iff.1 h
      cases h
      obtain ⟨j, hj, rfl⟩ := evaluateGiven_eq_ok_iff.1 hfirst
      exact ⟨_, give_eq_ok_iff.2 ⟨hknown, j, hj, rfl⟩, ih.2 ⟨hrest, others, hothers, rfl⟩⟩

theorem argumentsOf_eq_ok_iff : e.argumentsOf declared f = .ok values ↔
    (∀ a ∈ f.arguments, a.1 ∈ declared.keys) ∧
      (∃ js, e.evaluateAll f.arguments = .ok js ∧ values = OrderedMap.ofList js) ∧
        ∀ name a type, declared.get? name = some a → a.type = .nonNull type →
          ∃ j, values.get? name = some j ∧ j.isNull = false := by
  have hrequired : (∀ a ∈ declared.entries, requireGiven f.name values a = .ok ()) ↔
      ∀ name a type, declared.get? name = some a → a.type = .nonNull type →
        ∃ j, values.get? name = some j ∧ j.isNull = false := by
    constructor
    · intro h name a type hget htype
      exact requireGiven_eq_ok_iff.1 (h (name, a) (OrderedMap.mem_entries_iff.2 hget)) type htype
    · intro h a ha
      exact requireGiven_eq_ok_iff.2 fun type htype =>
        h a.1 a.2 type (OrderedMap.mem_entries_iff.1 ha) htype
  rw [argumentsOf_eq, bind_eq_ok_iff, ← hrequired]
  constructor
  · rintro ⟨values', hvalues, h⟩
    obtain ⟨⟨⟩, hforM, h⟩ := bind_eq_ok_iff.1 h
    cases h
    obtain ⟨hknown, js, hjs, rfl⟩ := foldlM_give_eq_ok_iff.1 hvalues
    exact ⟨hknown, ⟨js, hjs, rfl⟩, forM_eq_ok_iff.1 hforM⟩
  · rintro ⟨hknown, ⟨js, hjs, rfl⟩, hforM⟩
    refine ⟨_, foldlM_give_eq_ok_iff.2 ⟨hknown, js, hjs, rfl⟩, ?_⟩
    exact bind_eq_ok_iff.2 ⟨(), forM_eq_ok_iff.2 hforM, rfl⟩

/-- A field takes what is given for its arguments iff that comes to values for them. -/
theorem exists_argumentsOf_iff (hf : Value.checkMembers f.arguments = .ok ()) :
    (∃ values, e.argumentsOf declared f = .ok values) ↔ e.Takes declared f.arguments := by
  have hbound : (∃ js, e.evaluateAll f.arguments = .ok js) ↔
      ∀ name v, (name, v) ∈ f.arguments → ∀ x, v.Uses x → x ∈ e.bindings.keys := by
    rw [exists_evaluateAll_iff]
    constructor
    · intro h name v hv
      exact (v.exists_evaluate_iff (Value.check_of_mem_members hf hv)).1 (h (name, v) hv)
    · rintro h ⟨name, v⟩ hv
      exact (v.exists_evaluate_iff (Value.check_of_mem_members hf hv)).2 (h name v hv)
  -- A value that is null is one that is written so.
  have hnull : ∀ js, e.evaluateAll f.arguments = .ok js → ∀ name,
      (∃ j, (OrderedMap.ofList js).get? name = some j ∧ j.isNull = false) ↔
        ∃ v, (OrderedMap.ofList f.arguments).get? name = some v ∧ v.isNull e.bindings = false := by
    intro js hjs name
    have hvalues := exists_evaluateAll_iff.1 ⟨js, hjs⟩
    rw [evaluateAll_eq_map hjs, OrderedMap.get?_ofList_map]
    have hsame : ∀ v, (OrderedMap.ofList f.arguments).get? name = some v →
        (e.valueOf v).isNull = v.isNull e.bindings := by
      intro v hv
      obtain ⟨j, hj⟩ := hvalues (name, v) (OrderedMap.mem_of_get?_ofList hv)
      rw [valueOf, hj]
      exact Value.isNull_evaluate hj
    cases hget : (OrderedMap.ofList f.arguments).get? name with
    | none => exact ⟨nofun, nofun⟩
    | some v =>
      have heq := hsame v hget
      constructor
      · rintro ⟨_, ⟨⟩, hj⟩
        exact ⟨v, rfl, heq ▸ hj⟩
      · rintro ⟨_, ⟨⟩, hj⟩
        exact ⟨_, rfl, heq.trans hj⟩
  constructor
  · rintro ⟨values, h⟩
    obtain ⟨hknown, ⟨js, hjs, rfl⟩, hrequired⟩ := argumentsOf_eq_ok_iff.1 h
    constructor
    · exact fun name v hv => hknown (name, v) hv
    · exact hbound.1 ⟨js, hjs⟩
    · exact fun name a type hget htype => (hnull js hjs name).1 (hrequired name a type hget htype)
  · intro h
    obtain ⟨js, hjs⟩ := hbound.2 h.bound
    refine ⟨_, argumentsOf_eq_ok_iff.2 ⟨fun a ha => h.known a.1 a.2 ha, ⟨js, hjs, rfl⟩, ?_⟩⟩
    exact fun name a type hget htype => (hnull js hjs name).2 (h.required name a type hget htype)

end Environment

end Graphql

end ODataGraph
