import ODataGraph.Operation.Request
import ODataGraph.Proofs.Execution.ResponseKeys

/-!
What is in a JSON value at every depth: the names of members, of which a value that is read from a
text has no two alike in one object, and numbers.
-/

namespace ODataGraph

namespace Json

/-- The names of the members of each object in a value, at any depth, are as `P` says. -/
inductive Keyed (P : List String → Prop) : Json → Prop
  | null : Keyed P .null
  | bool (value : Bool) : Keyed P (.bool value)
  | number (value : Number) : Keyed P (.number value)
  | string (value : String) : Keyed P (.string value)
  | array {items : List Json} (h : ∀ v ∈ items, Keyed P v) : Keyed P (.array items)
  | object {members : List (String × Json)} (hnames : P (members.map Prod.fst))
      (h : ∀ m ∈ members, Keyed P m.2) : Keyed P (.object members)

/-- No object in a value has two members with one name. -/
def HasDistinctKeys (value : Json) : Prop := value.Keyed List.Nodup

mutual

/-- All numbers in a value, at any depth. -/
def numbers : Json → List Number
  | .null => []
  | .bool _ => []
  | .number n => [n]
  | .string _ => []
  | .array items => numbersOfItems items
  | .object members => numbersOfMembers members

def numbersOfItems : List Json → List Number
  | [] => []
  | item :: items => numbers item ++ numbersOfItems items

def numbersOfMembers : List (String × Json) → List Number
  | [] => []
  | (_, value) :: members => numbers value ++ numbersOfMembers members

end

mutual

/-- A value with other numbers, at any depth. -/
def mapNumbers (g : Number → Number) : Json → Json
  | .null => .null
  | .bool value => .bool value
  | .number n => .number (g n)
  | .string text => .string text
  | .array items => .array (mapItems g items)
  | .object members => .object (mapMembers g members)

def mapItems (g : Number → Number) : List Json → List Json
  | [] => []
  | item :: items => mapNumbers g item :: mapItems g items

def mapMembers (g : Number → Number) : List (String × Json) → List (String × Json)
  | [] => []
  | (name, value) :: members => (name, mapNumbers g value) :: mapMembers g members

end

section Numbers

variable {g : Number → Number}

theorem mapItems_eq_map (items : List Json) : mapItems g items = items.map (mapNumbers g) := by
  induction items with
  | nil => rfl
  | cons item rest ih => rw [mapItems, ih, List.map_cons]

theorem mapMembers_eq_map (members : List (String × Json)) :
    mapMembers g members = members.map fun m => (m.1, mapNumbers g m.2) := by
  induction members with
  | nil => rfl
  | cons member rest ih => rw [mapMembers, ih, List.map_cons]

theorem mem_numbersOfItems {n : Number} {items : List Json} :
    n ∈ numbersOfItems items ↔ ∃ v ∈ items, n ∈ v.numbers := by
  induction items with
  | nil => simp [numbersOfItems]
  | cons item rest ih => simp [numbersOfItems, ih]

theorem mem_numbersOfMembers {n : Number} {members : List (String × Json)} :
    n ∈ numbersOfMembers members ↔ ∃ m ∈ members, n ∈ m.2.numbers := by
  induction members with
  | nil => simp [numbersOfMembers]
  | cons member rest ih => simp [numbersOfMembers, ih]

mutual

theorem mapNumbers_eq_self {v : Json} (h : ∀ n ∈ v.numbers, g n = n) : v.mapNumbers g = v := by
  cases v with
  | number n => rw [mapNumbers, h n (List.mem_singleton_self n)]
  | array items => rw [mapNumbers, mapItems_eq_self h]
  | object members => rw [mapNumbers, mapMembers_eq_self h]
  | _ => rfl

theorem mapItems_eq_self {items : List Json} (h : ∀ n ∈ numbersOfItems items, g n = n) :
    mapItems g items = items := by
  cases items with
  | nil => rfl
  | cons item rest =>
    obtain ⟨hitem, hrest⟩ := List.forall_mem_append.1 h
    rw [mapItems, mapNumbers_eq_self hitem, mapItems_eq_self hrest]

theorem mapMembers_eq_self {members : List (String × Json)}
    (h : ∀ n ∈ numbersOfMembers members, g n = n) : mapMembers g members = members := by
  cases members with
  | nil => rfl
  | cons member rest =>
    obtain ⟨hvalue, hrest⟩ := List.forall_mem_append.1 h
    rw [mapMembers, mapNumbers_eq_self hvalue, mapMembers_eq_self hrest]

end

end Numbers

namespace Members

theorem mem_insert {name : String} {value : Json} {members : Members} {m : String × Json}
    (h : m ∈ insert name value members) : m ∈ members ∨ m = (name, value) := by
  induction members with
  | nil => exact .inr (List.mem_singleton.1 h)
  | cons first rest ih =>
    obtain ⟨n, v⟩ := first
    rw [insert] at h
    split at h
    · rename_i hn
      subst hn
      rcases List.mem_cons.1 h with rfl | h
      · exact .inr rfl
      · exact .inl (List.mem_cons_of_mem _ h)
    · rcases List.mem_cons.1 h with rfl | h
      · exact .inl List.mem_cons_self
      · exact (ih h).imp_left (List.mem_cons_of_mem _)

theorem mem_of_mem_ofList {members : Members} {m : String × Json} (h : m ∈ ofList members) :
    m ∈ members := by
  induction members using List.reverseRecOn with
  | nil => cases h
  | append_singleton members last ih =>
    obtain ⟨name, value⟩ := last
    rw [ofList_concat] at h
    rcases mem_insert h with h | rfl
    · exact List.mem_append_left _ (ih h)
    · exact List.mem_append_right _ (List.mem_singleton_self _)

theorem nodup_ofList (members : Members) : ((ofList members).map Prod.fst).Nodup := by
  induction members using List.reverseRecOn with
  | nil => exact List.nodup_nil
  | append_singleton members last ih =>
    obtain ⟨name, value⟩ := last
    rw [ofList_concat, map_fst_insert]
    split
    · exact ih
    · rename_i hnew
      exact List.nodup_append_comm.1 (List.nodup_cons.2 ⟨hnew, ih⟩)

end Members

/-- The values that literals denote, those that are too deep included. -/
inductive Denoted : Json → Prop
  | null : Denoted .null
  | bool (value : Bool) : Denoted (.bool value)
  | number {l : NumberLiteral} {n : Number} (h : l.value? = some n) : Denoted (.number n)
  | string (value : String) : Denoted (.string value)
  | array {items : List Json} (h : ∀ v ∈ items, Denoted v) : Denoted (.array items)
  | object {members : List (String × Json)} (hnames : (members.map Prod.fst).Nodup)
      (h : ∀ m ∈ members, Denoted m.2) : Denoted (.object members)

namespace Literal

mutual

theorem denoted_of_valueAt? {depth : Nat} {l : Literal} {value : Json}
    (h : l.valueAt? depth = some value) : value.Denoted := by
  cases l with
  | null =>
    cases h
    exact .null
  | bool b =>
    cases h
    exact .bool b
  | number n =>
    obtain ⟨n, hn, rfl⟩ := Option.map_eq_some_iff.1 h
    exact .number hn
  | string units =>
    obtain ⟨text, _, rfl⟩ := Option.map_eq_some_iff.1 h
    exact .string text
  | array items =>
    rw [valueAt?] at h
    split at h
    · cases h
    · obtain ⟨values, hvalues, rfl⟩ := Option.map_eq_some_iff.1 h
      exact .array (denoted_of_items? hvalues)
  | object members =>
    rw [valueAt?] at h
    split at h
    · cases h
    · obtain ⟨values, hvalues, rfl⟩ := Option.map_eq_some_iff.1 h
      exact .object (Members.nodup_ofList values) fun m hm =>
        denoted_of_members? hvalues m (Members.mem_of_mem_ofList hm)

theorem denoted_of_items? {depth : Nat} {items : List Literal} {values : List Json}
    (h : items? depth items = some values) : ∀ v ∈ values, v.Denoted := by
  cases items with
  | nil =>
    cases h
    nofun
  | cons item rest =>
    simp only [items?, Option.bind_eq_bind, Option.bind_eq_some_iff] at h
    obtain ⟨first, hfirst, others, hothers, h⟩ := h
    cases h
    exact List.forall_mem_cons.2 ⟨denoted_of_valueAt? hfirst, denoted_of_items? hothers⟩

theorem denoted_of_members? {depth : Nat} {members : List (List StringUnit × Literal)}
    {values : List (String × Json)} (h : members? depth members = some values) :
    ∀ m ∈ values, m.2.Denoted := by
  cases members with
  | nil =>
    cases h
    nofun
  | cons member rest =>
    obtain ⟨name, item⟩ := member
    simp only [members?, Option.bind_eq_bind, Option.bind_eq_some_iff] at h
    obtain ⟨name, _, value, hvalue, others, hothers, h⟩ := h
    cases h
    exact List.forall_mem_cons.2 ⟨denoted_of_valueAt? hvalue, denoted_of_members? hothers⟩

end

end Literal

theorem denoted_of_parse? {text : String} {value : Json} (h : parse? text = some value) :
    value.Denoted := by
  obtain ⟨_, _, h⟩ := Option.bind_eq_some_iff.1 h
  exact Literal.denoted_of_valueAt? h

theorem Denoted.hasDistinctKeys {value : Json} (h : value.Denoted) : value.HasDistinctKeys := by
  induction h with
  | null => exact .null
  | bool value => exact .bool value
  | number => exact .number _
  | string value => exact .string value
  | array _ ih => exact .array ih
  | object hnames _ ih => exact .object hnames ih

end Json

namespace RawRequest

/-- The provided values of variables have distinct keys. -/
def HasDistinctKeys (request : RawRequest) : Prop :=
  ∀ name value, request.bindings.get? name = some value → value.HasDistinctKeys

theorem hasDistinctKeys_of_bindings? {literal : Option Json.Literal}
    {bindings : OrderedMap String Json} (h : bindings? literal = some bindings) {name : String}
    {value : Json} (hvalue : bindings.get? name = some value) : value.HasDistinctKeys := by
  unfold bindings? at h
  split at h
  · cases h
    cases hvalue
  · cases h
    cases hvalue
  · obtain ⟨members, hmembers, h⟩ := Option.bind_eq_some_iff.1 h
    cases h
    have hdenoted := Json.Literal.denoted_of_members? hmembers
    exact (hdenoted _ (OrderedMap.mem_of_get?_ofList hvalue)).hasDistinctKeys
  · cases h

/-- Requests that are read from texts have distinct keys in what they provide. -/
theorem hasDistinctKeys_of_parse? {text : String} {request : RawRequest}
    (h : parse? text = some request) : request.HasDistinctKeys := by
  simp only [parse?, Option.bind_eq_bind, Option.bind_eq_some_iff] at h
  obtain ⟨_, _, _, _, _, _, _, _, _, _, bindings, hbindings, h⟩ := h
  cases h
  exact fun name value => hasDistinctKeys_of_bindings? hbindings

end RawRequest

end ODataGraph
