import ODataGraph.Proofs.Sequence
import ODataGraph.Registry.Build

/-!
What a registry is made of. Its types are those of the document, annotated, and its roots come from
the containers and these types; an augmentation changes all of them in the end.
-/

namespace ODataGraph.Registry

variable {service : Service} {d : Csdl.Document} {augmentation : Option Augmentation} {r : Registry}

/-- What a document makes of a service by itself, its types in the order of a hierarchy. -/
structure MadeFrom (r : Registry) (service : Service) (d : Csdl.Document) (h : Hierarchy) :
    Prop where
  types : r.types = (Types.ofDocument service d h).map (Descriptor.annotate d)
  entitySets : r.entitySets = (Roots.ofContainer d r.types).entitySets
  queryRoot : r.queryRoot = .queryRoot service (Roots.ofContainer d r.types).fields
  mutationRoot : r.mutationRoot = .mutationRoot service
  service : r.service = service

theorem exists_madeFrom_of_plain (hr : plain service d = .ok r) :
    ∃ h, Hierarchy.ofTypes d.structuredTypes = .ok h ∧ r.MadeFrom service d h := by
  obtain ⟨h, hh, hr⟩ := bind_eq_ok_iff.1 hr
  cases hr
  exact ⟨h, hh, rfl, rfl, rfl, rfl, rfl⟩

/-- A registry is what a document makes by itself, augmented. -/
theorem exists_plain_of_build (hr : build service d augmentation = .ok r) :
    ∃ r₀, plain service d = .ok r₀ ∧ r = (augmentation.map (augment · r₀)).getD r₀ := by
  rw [build] at hr
  cases hplain : plain service d with
  | error error =>
    rw [hplain] at hr
    cases hr
  | ok r₀ =>
    rw [hplain] at hr
    cases hr
    exact ⟨r₀, rfl, rfl⟩

theorem exists_augmented_of_build (hr : build service d augmentation = .ok r) :
    ∃ h r₀, Hierarchy.ofTypes d.structuredTypes = .ok h ∧ r₀.MadeFrom service d h ∧
      r = (augmentation.map (augment · r₀)).getD r₀ := by
  obtain ⟨r₀, hplain, hr⟩ := exists_plain_of_build hr
  obtain ⟨h, hh, hmade⟩ := exists_madeFrom_of_plain hplain
  exact ⟨h, r₀, hh, hmade, hr⟩

theorem exists_madeFrom_of_build (hr : build service d = .ok r) :
    ∃ h, Hierarchy.ofTypes d.structuredTypes = .ok h ∧ r.MadeFrom service d h := by
  obtain ⟨h, r₀, hh, hmade, rfl⟩ := exists_augmented_of_build hr
  exact ⟨h, hh, hmade⟩

theorem service_of_build (hr : build service d augmentation = .ok r) : r.service = service := by
  obtain ⟨_, r₀, _, hmade, rfl⟩ := exists_augmented_of_build hr
  cases augmentation <;> exact hmade.service

/-- A registry holds the types of its document, annotated and augmented. -/
theorem exists_get?_of_build (hr : build service d augmentation = .ok r) :
    ∃ h, Hierarchy.ofTypes d.structuredTypes = .ok h ∧ ∀ key, r.get? key =
      ((Types.ofDocument service d h).get? key).map fun t =>
        augmentation.getD id (t.annotate d key) := by
  obtain ⟨h, r₀, hh, hmade, rfl⟩ := exists_augmented_of_build hr
  have hplain : ∀ key, r₀.get? key =
      ((Types.ofDocument service d h).get? key).map (Descriptor.annotate d key) := by
    intro key
    rw [get?, hmade.types, OrderedMap.get?_map]
  refine ⟨h, hh, fun key => ?_⟩
  cases augmentation with
  | none => exact hplain key
  | some a =>
    refine (OrderedMap.get?_map _ _ _).trans ?_
    rw [← get?, hplain, Option.map_map]
    rfl

end ODataGraph.Registry
