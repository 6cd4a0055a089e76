import Mathlib.Data.List.Forall2
import ODataGraph.Json.Record
import ODataGraph.Proofs.Json.Grammar

/-!
Records of one field in JSON texts, and the collections among them. An object has the field if one
of its members has the name, and no other one does; an array has it as its only item.
-/

namespace ODataGraph.Json

namespace Literal

variable {name : String} {members : List (List StringUnit × Literal)} {l value : Literal}

/-- The names of members are texts, and others than a given one. -/
def NamedOtherwise (name : String) (members : List (List StringUnit × Literal)) : Prop :=
  ∀ m ∈ members, ∃ other, StringUnit.text? m.1 = some other ∧ other ≠ name

/-- A record of one field: an object with one member of that name, or an array of one item. -/
inductive HasField (name : String) (value : Literal) : Literal → Prop
  | object {before after : List (List StringUnit × Literal)} {units : List StringUnit}
      (hname : StringUnit.text? units = some name) (hbefore : NamedOtherwise name before)
      (hafter : NamedOtherwise name after) :
      HasField name value (.object (before ++ (units, value) :: after))
  | array : HasField name value (.array [value])

theorem namedOtherwise_cons {m : List StringUnit × Literal} : NamedOtherwise name (m :: members) ↔
    (∃ other, StringUnit.text? m.1 = some other ∧ other ≠ name) ∧ NamedOtherwise name members :=
  List.forall_mem_cons

/-- A member has the name, and no later one does, or it changes nothing. -/
theorem namedFields?_cons_eq_some_iff {units : List StringUnit} {fields : List (String × Literal)} :
    namedFields? [name] false ((units, value) :: members) = some fields ↔
      ∃ other rest, StringUnit.text? units = some other ∧
        namedFields? [name] false members = some rest ∧
        (other = name ∧ rest.lookup name = none ∧ fields = (name, value) :: rest ∨
          other ≠ name ∧ fields = rest) := by
  have hknown : ∀ other, [name].contains other = true ↔ other = name := by simp
  simp only [namedFields?, Option.bind_eq_bind, Option.bind_eq_some_iff, hknown]
  constructor
  · rintro ⟨other, hother, rest, hrest, h⟩
    refine ⟨other, rest, hother, hrest, ?_⟩
    split at h
    · rename_i hname
      subst hname
      split at h
      · cases h
      · rename_i hlookup
        cases h
        exact .inl ⟨rfl, Option.not_isSome_iff_eq_none.1 hlookup, rfl⟩
    · rename_i hname
      cases h
      exact .inr ⟨hname, rfl⟩
  · rintro ⟨other, rest, hother, hrest, h⟩
    refine ⟨other, hother, rest, hrest, ?_⟩
    rcases h with ⟨rfl, hnone, rfl⟩ | ⟨hname, rfl⟩
    · rw [if_pos rfl, hnone]
      rfl
    · rw [if_neg hname]
      rfl

theorem namedFields?_eq_nil_iff :
    namedFields? [name] false members = some [] ↔ NamedOtherwise name members := by
  induction members with
  | nil => exact ⟨fun _ => nofun, fun _ => rfl⟩
  | cons m members ih =>
    rw [namedFields?_cons_eq_some_iff, namedOtherwise_cons, ← ih]
    constructor
    · rintro ⟨other, rest, hother, hrest, ⟨_, _, ⟨⟩⟩ | ⟨hne, rfl⟩⟩
      exact ⟨⟨other, hother, hne⟩, hrest⟩
    · rintro ⟨⟨other, hother, hne⟩, hrest⟩
      exact ⟨other, [], hother, hrest, .inr ⟨hne, rfl⟩⟩

theorem cases_namedFields? {fields : List (String × Literal)}
    (h : namedFields? [name] false members = some fields) :
    fields = [] ∨ ∃ value, fields = [(name, value)] := by
  induction members generalizing fields with
  | nil => exact .inl (Option.some.inj h).symm
  | cons m members ih =>
    obtain ⟨other, rest, _, hrest, ⟨_, hnone, rfl⟩ | ⟨_, rfl⟩⟩ := namedFields?_cons_eq_some_iff.1 h
    · rcases ih hrest with rfl | ⟨value, rfl⟩
      · exact .inr ⟨_, rfl⟩
      · rw [List.lookup_cons_self] at hnone
        cases hnone
    · exact ih hrest

theorem namedFields?_eq_singleton_iff : namedFields? [name] false members = some [(name, value)] ↔
    ∃ before units after, members = before ++ (units, value) :: after ∧
      StringUnit.text? units = some name ∧ NamedOtherwise name before ∧
      NamedOtherwise name after := by
  constructor
  · intro h
    induction members with
    | nil => cases h
    | cons m members ih =>
      obtain ⟨other, rest, hother, hrest, ⟨rfl, hnone, heq⟩ | ⟨hne, rfl⟩⟩ :=
        namedFields?_cons_eq_some_iff.1 h
      · cases heq
        exact ⟨[], _, members, rfl, hother, nofun, namedFields?_eq_nil_iff.1 hrest⟩
      · obtain ⟨before, units, after, rfl, hname, hbefore, hafter⟩ := ih hrest
        exact ⟨m :: before, units, after, rfl, hname,
          namedOtherwise_cons.2 ⟨⟨other, hother, hne⟩, hbefore⟩, hafter⟩
  · rintro ⟨before, units, after, rfl, hname, hbefore, hafter⟩
    induction before with
    | nil =>
      exact namedFields?_cons_eq_some_iff.2 ⟨name, [], hname, namedFields?_eq_nil_iff.2 hafter,
        .inl ⟨rfl, rfl, rfl⟩⟩
    | cons m before ih =>
      obtain ⟨⟨other, hother, hne⟩, hbefore⟩ := namedOtherwise_cons.1 hbefore
      exact namedFields?_cons_eq_some_iff.2 ⟨other, _, hother, ih hbefore, .inr ⟨hne, rfl⟩⟩

theorem lookup_record?_eq_some_iff :
    (l.record? [name] false).bind (List.lookup name) = some value ↔ HasField name value l := by
  rw [Option.bind_eq_some_iff]
  constructor
  · rintro ⟨fields, hfields, hvalue⟩
    rw [record?.eq_def] at hfields
    split at hfields
    · rcases cases_namedFields? hfields with rfl | ⟨value', rfl⟩
      · cases hvalue
      · rw [List.lookup_cons_self] at hvalue
        cases hvalue
        obtain ⟨before, units, after, rfl, hname, hbefore, hafter⟩ :=
          namedFields?_eq_singleton_iff.1 hfields
        exact .object hname hbefore hafter
    · rename_i items
      split at hfields
      · cases hfields
        rename_i hle
        match items, hle with
        | [], _ => cases hvalue
        | [item], _ =>
          rw [List.zip_cons_cons, List.lookup_cons_self] at hvalue
          cases hvalue
          exact .array
      · cases hfields
    · cases hfields
  · rintro (⟨hname, hbefore, hafter⟩ | _)
    · exact ⟨_, namedFields?_eq_singleton_iff.2 ⟨_, _, _, rfl, hname, hbefore, hafter⟩,
        List.lookup_cons_self⟩
    · exact ⟨_, rfl, List.lookup_cons_self⟩

theorem items?_eq_some_iff {depth : Nat} {items : List Literal} {values : List Json} :
    items? depth items = some values ↔
      List.Forall₂ (fun item v => item.valueAt? depth = some v) items values := by
  induction items generalizing values with
  | nil =>
    rw [List.forall₂_nil_left_iff, items?, Option.some.injEq, eq_comm]
  | cons item items ih =>
    rw [List.forall₂_cons_left_iff]
    simp only [items?, Option.bind_eq_bind, Option.bind_eq_some_iff, Option.pure_def,
      Option.some.injEq, ih]
    constructor
    · rintro ⟨v, hv, rest, hrest, rfl⟩
      exact ⟨v, rest, hv, hrest, rfl⟩
    · rintro ⟨v, rest, hv, hrest, rfl⟩
      exact ⟨v, hv, rest, hrest, rfl⟩

theorem valueAt?_eq_array_iff {depth : Nat} {values : List Json} :
    l.valueAt? (depth + 1) = some (.array values) ↔
      ∃ items, l = .array items ∧ items? depth items = some values := by
  cases l with
  | array items => simp [valueAt?]
  | _ => simp [valueAt?]

end Literal

theorem array?_eq_some_iff {v : Json} {values : List Json} :
    v.array? = some values ↔ v = .array values := by
  cases v <;> simp [array?]

/-- A text is a collection if its one field `value` is an array, whose items denote values. -/
theorem collection?_eq_some_iff {text : String} {values : List Json} :
    collection? text = some values ↔ ∃ l items, SpacedText text.toList l ∧
      Literal.HasField "value" (.array items) l ∧
      List.Forall₂ (fun item v => item.valueAt? (maxDepth - 2) = some v) items values := by
  have hread : collection? text = (Literal.ofText? text).bind fun l =>
      ((l.record? ["value"] false).bind (List.lookup "value")).bind fun value =>
        (value.valueAt? (maxDepth - 1)).bind array? := by
    simp only [collection?, Option.bind_eq_bind, Option.bind_assoc]
  rw [hread, Option.bind_eq_some_iff]
  refine exists_congr fun l => ?_
  rw [exists_and_left, Literal.ofText?_eq_some_iff]
  refine and_congr_right fun _ => ?_
  simp only [Option.bind_eq_some_iff (x := (l.record? ["value"] false).bind (List.lookup "value")),
    Literal.lookup_record?_eq_some_iff, ← Literal.items?_eq_some_iff]
  simp only [Option.bind_eq_some_iff, array?_eq_some_iff, exists_eq_right]
  constructor
  · rintro ⟨value, hfield, hvalues⟩
    obtain ⟨items, rfl, hitems⟩ := Literal.valueAt?_eq_array_iff.1 hvalues
    exact ⟨items, hfield, hitems⟩
  · rintro ⟨items, hfield, hitems⟩
    exact ⟨_, hfield, Literal.valueAt?_eq_array_iff.2 ⟨items, rfl, hitems⟩⟩

end ODataGraph.Json
