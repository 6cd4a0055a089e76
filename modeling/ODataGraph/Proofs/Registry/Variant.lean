import ODataGraph.Proofs.Registry.Closure
import ODataGraph.Proofs.Registry.Subsumption

/-!
The object with the fields of a type is one that values of the type can be. For a union this is its
base variant, which stays a member of it for as long as it is there; no names are assumed to be
different for that.
-/

namespace ODataGraph

open Csdl (Extends)
open Relation (TransGen)

namespace Types

variable {ts : Types} {service : Service} {d : Csdl.Document} {h : Hierarchy} {F : FieldMap}

/-- Every union has its base variant among its members, or nothing stands in the place of that. -/
def HoldsVariants (ts : Types) : Prop :=
  ∀ key u, ts.get? key = some (.union u) → baseKey key ∈ u.members ∨ ts.get? (baseKey key) = none

theorem HoldsVariants.addPlaceholder (hts : ts.HoldsVariants) (key : String) :
    (ts.addPlaceholder key).HoldsVariants := by
  intro k u hu
  rcases hts k u (get?_addPlaceholder_union.1 hu) with hmem | hnone
  · exact .inl hmem
  · right
    rw [get?_addPlaceholder, hnone]
    split <;> rfl

theorem HoldsVariants.without (hts : ts.HoldsVariants) (key : String) :
    (ts.without key).HoldsVariants := by
  intro k u hu
  obtain ⟨u₀, hu₀, rfl⟩ := exists_union_of_without hu
  rw [get?_without]
  by_cases hk : baseKey k = key
  · exact .inr (if_pos hk)
  · rcases hts k u₀ hu₀ with hmem | hnone
    · exact .inl ((List.mem_erase_of_ne hk).2 hmem)
    · exact .inr (by rw [if_neg hk, hnone]; rfl)

/-- What comes in the place of a union is not missing elsewhere. -/
theorem HoldsVariants.insert (hts : ts.HoldsVariants) {name : String} {o : ObjectType}
    (hname : ∃ t, ts.get? name = some t) :
    Types.HoldsVariants (ts.insert name (.object o)) := by
  intro k u hu
  obtain ⟨t, ht⟩ := hname
  rw [OrderedMap.get?_insert] at hu ⊢
  split at hu
  · cases hu
  · rcases hts k u hu with hmem | hnone
    · exact .inl hmem
    · right
      have hne : baseKey k ≠ name := by
        rintro rfl
        cases hnone.symm.trans ht
      rw [if_neg hne]
      exact hnone

theorem HoldsVariants.settle (hts : ts.HoldsVariants) (key : String) :
    (ts.settle key).HoldsVariants := by
  have hplaceholder := hts.addPlaceholder key
  rcases cases_settle ts key with heq | ⟨name, o, u, rfl, _, hu, ⟨_, heq⟩ | ⟨_, heq⟩⟩
  · exact heq ▸ hplaceholder
  · exact heq ▸ hplaceholder.without _
  · rw [heq]
    apply (hplaceholder.without _).insert
    have hlength : name.length ≠ (baseKey name).length := by
      simp [baseKey, baseEnding]
    have hne : name ≠ baseKey name := fun heq => hlength (congrArg String.length heq)
    exact ⟨_, by rw [get?_without, if_neg hne, hu]; rfl⟩

end Types

namespace Registry

variable {service : Service} {d : Csdl.Document} {augmentation : Option Augmentation}
  {r r' : Registry} {key typeKey : String} {o : ObjectType}

theorem possibleTypes_eq (r : Registry) (key : String) :
    r.possibleTypes key = match r.shape? key with
      | some .object => [key]
      | some (.union members) => members
      | _ => [] := by
  rw [possibleTypes, shape?]
  cases r.get? key with
  | none => rfl
  | some t => cases t <;> rfl

/-- Where the fields of a type are is a matter of shape. -/
theorem exists_concreteObject?_iff : (∃ o, r.concreteObject? key = some (typeKey, o)) ↔
    r.shape? typeKey = some .object ∧ (typeKey = key ∨
      typeKey = baseKey key ∧ ∃ members, r.shape? key = some (.union members)) := by
  simp only [concreteObject?_eq_some_iff, exists_and_left, object?_eq_some_iff,
    shape?_eq_object_iff, shape?_eq_union_iff]
  rw [and_comm]
  apply and_congr_right
  rintro ⟨o, ho⟩
  rw [Types.fieldsKey?, get?]
  cases ht : r.types.get? key with
  | none =>
    have hne : typeKey ≠ key := by
      rintro rfl
      cases ho.symm.trans ht
    simp [hne]
  | some t =>
    cases t with
    | object t => simp [eq_comm]
    | _ =>
      have hne : typeKey ≠ key := by
        rintro rfl
        cases ho.symm.trans ht
      simp [hne, eq_comm]

/-- The object with the fields of a subtype is among those that values of a type can be. -/
theorem mem_possibleTypes_of_below (hd : d.WellNamed) (ha : ∀ a ∈ augmentation, a.KeepsShape)
    (hr : build service d augmentation = .ok r) {declared : String}
    (hkey : key = declared ∨ TransGen (Extends d.structuredTypes) key declared)
    (ho : r.concreteObject? key = some (typeKey, o)) : typeKey ∈ r.possibleTypes declared := by
  -- without its augmentation the registry has the same shape
  obtain ⟨plain, hplain, _⟩ := exists_plain_of_build hr
  have hplain : build service d = .ok plain := by
    rw [build, hplain]
    rfl
  obtain ⟨h, hh, hshape⟩ := exists_shape?_of_build ha hr
  have hnone : ∀ a ∈ (none : Option Augmentation), a.KeepsShape := by rintro _ ⟨⟩
  obtain ⟨h', hh', hshape'⟩ := exists_shape?_of_build hnone hplain
  cases hh.symm.trans hh'
  have hsame : r.shape? = plain.shape? := by
    funext key
    rw [hshape, hshape']
  obtain ⟨_, _, hs⟩ := exists_settled_of_build hd hplain
  have hconcrete := exists_concreteObject?_iff.1 ⟨o, ho⟩
  rw [hsame, ← exists_concreteObject?_iff] at hconcrete
  obtain ⟨o', ho'⟩ := hconcrete
  rw [possibleTypes_eq, hsame, ← possibleTypes_eq]
  exact hs.mem_possibleTypes_of_below hkey ho'

end Registry

end ODataGraph
