import ODataGraph.Proofs.Registry.PlaceholderField
import ODataGraph.Proofs.Sdl.Definition

/-!
Which objects have no fields. Objects of a document have their raw value, and those that have no
declared field besides have a placeholder. The mutation root always has a placeholder. The query
root has none: it is empty if no entry of a container is of a registered type.
-/

namespace ODataGraph

namespace ObjectType

variable {o : ObjectType}

/-- An object has a field besides its raw value. -/
def HasOther (o : ObjectType) : Prop := ∃ name ∈ o.fields.keys, name ≠ rawValueField

theorem HoldsPlace.hasOther (h : o.HoldsPlace) : o.HasOther := by
  refine ⟨placeholderField, ?_, by decide⟩
  rw [OrderedMap.keys, h]
  exact List.mem_cons_of_mem _ List.mem_cons_self

/-- The raw value is not declared. -/
theorem StartsRaw.hasOther (h : o.StartsRaw) (hdeclared : o.hasDeclaredFields = true) :
    o.HasOther := by
  obtain ⟨f, hf, hkind⟩ := List.any_eq_true.1 hdeclared
  obtain ⟨name, hname⟩ := OrderedMap.mem_values_iff.1 hf
  refine ⟨name, OrderedMap.mem_keys_iff.2 ⟨f, hname⟩, ?_⟩
  rintro rfl
  obtain ⟨declared, hentries, _⟩ := h
  have hraw : o.fields.get? rawValueField = some Types.rawValue :=
    OrderedMap.mem_entries_iff.1 (hentries ▸ List.mem_cons_self)
  cases hname.symm.trans hraw
  cases hkind

end ObjectType

/-- Every object of a document has its raw value and at least one field more. -/
theorem Types.hasOther_of_ofDocument {service : Service} {d : Csdl.Document} {h : Hierarchy}
    {key : String} {o : ObjectType} (ho : (ofDocument service d h).get? key = some (.object o)) :
    rawValueField ∈ o.fields.keys ∧ o.HasOther := by
  rcases placed_ofDocument service d h key o ho with hplace | ⟨hraw, hsettled⟩
  · have hmem : rawValueField ∈ o.fields.keys := by
      rw [OrderedMap.keys, hplace]
      exact List.mem_cons_self
    exact ⟨hmem, hplace.hasOther⟩
  · have hdeclared : o.hasDeclaredFields = true := by
      rw [← Bool.not_eq_false, ← hsettled]
      exact List.not_mem_nil
    exact ⟨hraw.mem_keys, hraw.hasOther hdeclared⟩

namespace Registry

variable {service : Service} {d : Csdl.Document} {augmentation : Option Augmentation} {r : Registry}

theorem mem_keys_iff_of_core {o o' : ObjectType} (hcore : ∀ field,
      (o'.fields.get? field).map Field.core = (o.fields.get? field).map Field.core)
    {name : String} : name ∈ o'.fields.keys ↔ name ∈ o.fields.keys := by
  rw [← not_iff_not, ← OrderedMap.get?_eq_none_iff, ← OrderedMap.get?_eq_none_iff,
    ← Option.map_eq_none_iff (f := Field.core), hcore, Option.map_eq_none_iff]

/-- Objects that are registered have their raw value and a field to tell more. -/
theorem exists_field_of_get? (ha : ∀ a ∈ augmentation, a.KeepsFields)
    (hr : build service d augmentation = .ok r) {key : String} {o : ObjectType}
    (ho : r.get? key = some (.object o)) : rawValueField ∈ o.fields.keys ∧ o.HasOther := by
  obtain ⟨h, _, hget⟩ := exists_get?_of_build hr
  obtain ⟨o₀, ho₀, hcore⟩ := exists_core_of_get? ha (hget key) ho
  obtain ⟨hraw, name, hname, hne⟩ := Types.hasOther_of_ofDocument ho₀
  exact ⟨(mem_keys_iff_of_core hcore).2 hraw, name, (mem_keys_iff_of_core hcore).2 hname, hne⟩

theorem mem_keys_augmentRoot {a : Augmentation} (ha : a.KeepsFields) (root : ObjectType)
    (name : String) : name ∈ (augmentRoot a root).fields.keys ↔ name ∈ root.fields.keys := by
  rw [augmentRoot]
  cases hroot : a (.object root) with
  | object o => exact mem_keys_iff_of_core (ha.core root o hroot)
  | enum _ => exact Iff.rfl
  | union _ => exact Iff.rfl

/-- The fields of the roots, which no augmentation adds or takes away. -/
theorem rootKeys_of_build (ha : ∀ a ∈ augmentation, a.KeepsFields)
    (hr : build service d augmentation = .ok r) (name : String) :
    (name ∈ r.queryRoot.fields.keys ↔
      ∃ entry ∈ d.container, entry.name = name ∧ Csdl.localName entry.type ∈ r.types.keys) ∧
    (name ∈ r.mutationRoot.fields.keys ↔ name = placeholderField) := by
  obtain ⟨_, r₀, _, hmade, rfl⟩ := exists_augmented_of_build hr
  have hroots : (name ∈ r₀.queryRoot.fields.keys ↔
      ∃ entry ∈ d.container, entry.name = name ∧ Csdl.localName entry.type ∈ r₀.types.keys) ∧
      (name ∈ r₀.mutationRoot.fields.keys ↔ name = placeholderField) := by
    rw [hmade.queryRoot, hmade.mutationRoot]
    exact ⟨Roots.mem_keys_ofContainer, List.mem_singleton⟩
  cases augmentation with
  | none => exact hroots
  | some a =>
    have hkeys : (r₀.augment a).types.keys = r₀.types.keys := OrderedMap.keys_map _ _
    have hquery := mem_keys_augmentRoot (ha a rfl) r₀.queryRoot name
    have hmutation := mem_keys_augmentRoot (ha a rfl) r₀.mutationRoot name
    exact ⟨hquery.trans (hkeys ▸ hroots.1), hmutation.trans hroots.2⟩

/-- Every object that is printed has a field. -/
def NoneEmpty (r : Registry) : Prop :=
  ∀ o, Sdl.Definition.type r (.object o) ∈ r.definitions → o.fields.keys ≠ []

theorem mem_definitions_object {o : ObjectType} :
    Sdl.Definition.type r (.object o) ∈ r.definitions ↔
      (∃ key, r.get? key = some (.object o)) ∨ o = r.queryRoot ∨ o = r.mutationRoot := by
  rw [definitions, List.mem_append, typeDefinitions, List.mem_map]
  simp [OrderedMap.mem_values_iff, get?]

theorem noneEmpty_iff (ha : ∀ a ∈ augmentation, a.KeepsFields)
    (hr : build service d augmentation = .ok r) :
    r.NoneEmpty ↔ ∃ entry ∈ d.container, Csdl.localName entry.type ∈ r.types.keys := by
  constructor
  · intro h
    obtain ⟨name, hname⟩ := List.exists_mem_of_ne_nil _
      (h r.queryRoot (mem_definitions_object.2 (.inr (.inl rfl))))
    obtain ⟨entry, hentry, _, htype⟩ := (rootKeys_of_build ha hr name).1.1 hname
    exact ⟨entry, hentry, htype⟩
  · rintro ⟨entry, hentry, htype⟩ o ho
    rcases mem_definitions_object.1 ho with ⟨key, ho⟩ | rfl | rfl
    · exact List.ne_nil_of_mem (exists_field_of_get? ha hr ho).1
    · exact List.ne_nil_of_mem
        ((rootKeys_of_build ha hr entry.name).1.2 ⟨entry, hentry, rfl, htype⟩)
    · exact List.ne_nil_of_mem ((rootKeys_of_build ha hr placeholderField).2.2 rfl)

/-- The only object that can be empty is the query root, and it is if no entry of a container is of
a registered type. -/
theorem noneEmpty_of_build (ha : ∀ a ∈ augmentation, a.KeepsFields)
    (hr : build service d augmentation = .ok r) :
    r.sdl = Sdl.document r.queryRoot.name r.mutationRoot.name r.definitions ∧
    (∀ key o, r.get? key = some (.object o) → rawValueField ∈ o.fields.keys ∧ o.HasOther) ∧
    (∀ name, name ∈ r.mutationRoot.fields.keys ↔ name = placeholderField) ∧
    (∀ name, name ∈ r.queryRoot.fields.keys ↔
      ∃ entry ∈ d.container, entry.name = name ∧ Csdl.localName entry.type ∈ r.types.keys) ∧
    (r.NoneEmpty ↔ ∃ entry ∈ d.container, Csdl.localName entry.type ∈ r.types.keys) :=
  ⟨r.sdl_eq, fun _ _ ho => exists_field_of_get? ha hr ho,
    fun name => (rootKeys_of_build ha hr name).2, fun name => (rootKeys_of_build ha hr name).1,
    noneEmpty_iff ha hr⟩

theorem noneEmpty_of_mascot : ∃ r, build ⟨"zoo", "http://zoo.test/odata"⟩
    (loneDog [{ kind := .singleton, name := "Mascot", type := "Zoo.Dog" }]) = .ok r ∧
      r.NoneEmpty := by
  have hbuilds : (build ⟨"zoo", "http://zoo.test/odata"⟩
      (loneDog [{ kind := .singleton, name := "Mascot", type := "Zoo.Dog" }])).toOption.any
        (fun r => r.types.contains "Dog") = true := by
    decide
  obtain ⟨r, hr, hdog⟩ := exists_of_any_toOption hbuilds
  have ha : ∀ a ∈ (none : Option Augmentation), a.KeepsFields := nofun
  obtain ⟨_, _, _, _, hiff⟩ := noneEmpty_of_build ha hr
  have htype : Csdl.localName "Zoo.Dog" = "Dog" := by decide
  refine ⟨r, hr, hiff.2 ⟨_, List.mem_singleton_self _, ?_⟩⟩
  rw [htype]
  exact OrderedMap.contains_iff.1 hdog

/-- Without a container there is nothing to ask for. -/
theorem not_forall_noneEmpty : ¬ ∀ service d r, build service d = .ok r → r.NoneEmpty := by
  intro h
  have hbuilds : (build ⟨"zoo", "http://zoo.test/odata"⟩ (loneDog [])).toOption.any
      (fun r => r.queryRoot.fields.isEmpty) = true := by
    decide
  obtain ⟨r, hr, hempty⟩ := exists_of_any_toOption hbuilds
  have hkeys : r.queryRoot.fields.keys = [] := by
    rw [OrderedMap.keys, List.isEmpty_iff.1 hempty, List.map_nil]
  exact h _ _ r hr _ (mem_definitions_object.2 (.inr (.inl rfl))) hkeys

end Registry
end ODataGraph
