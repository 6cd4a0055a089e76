import ODataGraph.Proofs.Registry.Build
import ODataGraph.Proofs.Registry.UnionShape

/-!
The shape of a registry: which keys are enums, objects and unions of which members. Annotations
leave it as it is, and so do augmentations that only decorate types.
-/

namespace ODataGraph

open Csdl (StructuredType Extends)
open Relation (ReflTransGen TransGen)

/-- A type apart from its names, fields and decoration. -/
inductive Shape where
  | enum
  | object
  | union (members : List String)

def Descriptor.shape : Descriptor → Shape
  | .enum _ => .enum
  | .object _ => .object
  | .union u => .union u.members

@[simp] theorem Descriptor.shape_annotate (d : Csdl.Document) (key : String) (t : Descriptor) :
    (t.annotate d key).shape = t.shape := by
  cases t <;> rfl

theorem Descriptor.shape_eq_object_iff {t : Descriptor} : t.shape = .object ↔ ∃ o, t = .object o := by
  cases t <;> simp [shape]

theorem Descriptor.shape_eq_union_iff {t : Descriptor} {members : List String} :
    t.shape = .union members ↔ ∃ u, t = .union u ∧ u.members = members := by
  cases t <;> simp [shape]

/-- The augmentation only decorates: no type becomes another kind of type, and no union gets other
members. -/
def Augmentation.KeepsShape (a : Augmentation) : Prop := ∀ t, (a t).shape = t.shape

namespace Registry

variable {service : Service} {d : Csdl.Document} {augmentation : Option Augmentation} {r : Registry}

def shape? (r : Registry) (key : String) : Option Shape := (r.get? key).map Descriptor.shape

theorem shape?_eq_object_iff {key : String} :
    r.shape? key = some .object ↔ ∃ o, r.get? key = some (.object o) := by
  simp only [shape?, Option.map_eq_some_iff, Descriptor.shape_eq_object_iff]
  constructor
  · rintro ⟨t, ht, o, rfl⟩
    exact ⟨o, ht⟩
  · rintro ⟨o, ho⟩
    exact ⟨_, ho, o, rfl⟩

theorem shape?_eq_union_iff {key : String} {members : List String} :
    r.shape? key = some (.union members) ↔
      ∃ u, r.get? key = some (.union u) ∧ u.members = members := by
  simp only [shape?, Option.map_eq_some_iff, Descriptor.shape_eq_union_iff]
  constructor
  · rintro ⟨t, ht, u, rfl, hu⟩
    exact ⟨u, ht, hu⟩
  · rintro ⟨u, hu, hmembers⟩
    exact ⟨_, hu, u, rfl, hmembers⟩

theorem shape?_eq_none_iff {key : String} : r.shape? key = none ↔ r.get? key = none := by
  rw [shape?, Option.map_eq_none_iff]

theorem exists_shape?_of_build (ha : ∀ a ∈ augmentation, a.KeepsShape)
    (hr : build service d augmentation = .ok r) :
    ∃ h, Hierarchy.ofTypes d.structuredTypes = .ok h ∧
      ∀ key, r.shape? key = ((Types.ofDocument service d h).get? key).map Descriptor.shape := by
  obtain ⟨h, hh, hget⟩ := exists_get?_of_build hr
  refine ⟨h, hh, fun key => ?_⟩
  rw [shape?, hget, Option.map_map]
  congr 1
  funext t
  cases augmentation with
  | none => exact Descriptor.shape_annotate d key t
  | some a => exact (ha a rfl _).trans (Descriptor.shape_annotate d key t)

/-- A registered object is one of the document, annotated and augmented. -/
theorem exists_object_of_get? (ha : ∀ a ∈ augmentation, a.KeepsShape) {h : Hierarchy}
    {key : String} {o : ObjectType}
    (hget : r.get? key = ((Types.ofDocument service d h).get? key).map fun t =>
      augmentation.getD id (t.annotate d key))
    (ho : r.get? key = some (.object o)) :
    ∃ o₀, (Types.ofDocument service d h).get? key = some (.object o₀) ∧
      augmentation.getD id (Descriptor.annotate d key (.object o₀)) = .object o := by
  rw [hget, Option.map_eq_some_iff] at ho
  obtain ⟨t, ht, ho⟩ := ho
  have hshape : t.shape = .object := by
    rw [← Descriptor.shape_annotate d key t]
    cases augmentation with
    | none => exact congrArg Descriptor.shape ho
    | some a => exact (ha a rfl _).symm.trans (congrArg Descriptor.shape ho)
  obtain ⟨o₀, rfl⟩ := Descriptor.shape_eq_object_iff.1 hshape
  exact ⟨o₀, ht, ho⟩

theorem isMember_iff {h : Hierarchy} (ho : h.Orders d.structuredTypes) {name m : String}
    (hname : name ∈ d.typeNames) :
    Types.IsMember d h name m ↔
      ∃ s, (s = name ∨ TransGen (Extends d.structuredTypes) s name) ∧
        (d.HasSubtypes s ∧ d.HasFields s ∧ m = baseKey s ∨ ¬ d.HasSubtypes s ∧ m = s) := by
  refine exists_congr fun s => and_congr_right fun hs => ?_
  have hdeclared := Csdl.Document.typeNames_of_below hname hs
  have hbase := Types.isBase_iff_hasSubtypes ho hdeclared
  rw [← hbase, Hierarchy.objectKey]
  by_cases hb : h.isBase s = true <;> simp [hb, and_comm]

/-- The members of a union are objects. -/
theorem shape?_of_isMember {h : Hierarchy} (hd : d.WellNamed) (ho : h.Orders d.structuredTypes)
    (hshape : ∀ key, r.shape? key =
      ((Types.ofDocument service d h).get? key).map Descriptor.shape) {name m : String}
    (hname : name ∈ d.typeNames) (hm : Types.IsMember d h name m) : r.shape? m = some .object := by
  obtain ⟨F, hF, hfields⟩ := Types.exists_ofDocument_eq service ho hd
  obtain ⟨s, hs, rfl, hstays⟩ := hm
  have hdeclared := Csdl.Document.typeNames_of_below hname hs
  rw [hshape, hF]
  by_cases hb : h.isBase s = true
  · rw [Types.get?_settled_object ho hd hfields hdeclared (hstays hb)]
    rfl
  · by_cases hhas : d.HasFields s
    · rw [Types.get?_settled_object ho hd hfields hdeclared hhas]
      rfl
    · rw [Hierarchy.objectKey, if_neg hb, Types.get?_settled_empty ho hd hfields hdeclared hb hhas]
      rfl

/-- Exactly the types that others name as their base are unions: of their own object and those of
all types below, less the base variants of types that have no fields from anywhere. -/
theorem unions_of_build (hd : d.WellNamed) (ha : ∀ a ∈ augmentation, a.KeepsShape)
    (hr : build service d augmentation = .ok r) :
    (∀ t ∈ d.structuredTypes, d.HasSubtypes t.name →
      ∃ u, r.get? t.name = some (.union u) ∧ u.members.Nodup ∧ ∀ m, m ∈ u.members ↔
        ∃ s, (s = t.name ∨ TransGen (Extends d.structuredTypes) s t.name) ∧
          (d.HasSubtypes s ∧ d.HasFields s ∧ m = baseKey s ∨ ¬ d.HasSubtypes s ∧ m = s)) ∧
    (∀ t ∈ d.structuredTypes, ¬ d.HasSubtypes t.name → ∃ o, r.get? t.name = some (.object o)) ∧
    (∀ t ∈ d.structuredTypes, d.HasSubtypes t.name →
      (r.get? (baseKey t.name) = none ↔ ¬ d.HasFields t.name)) ∧
    (∀ key u, r.get? key = some (.union u) →
      u.members ≠ [] ∧ ∀ m ∈ u.members, ∃ o, r.get? m = some (.object o)) := by
  obtain ⟨h, hh, hshape⟩ := exists_shape?_of_build ha hr
  have ho := Hierarchy.orders_of_ofTypes hd.nodup hh
  obtain ⟨F, hF, hfields⟩ := Types.exists_ofDocument_eq service ho hd
  have hunion : ∀ name, h.isBase name = true → ∃ u, r.get? name = some (.union u) ∧
      u.members.Nodup ∧ ∀ m, m ∈ u.members ↔ Types.IsMember d h name m := by
    intro name hbase
    obtain ⟨u, hu, hnodup, hmembers⟩ := Types.get?_settled_union ho hd hfields hbase
    have hu : r.shape? name = some (.union u.members) := by
      rw [hshape, hF, hu]
      rfl
    obtain ⟨u', hu', heq⟩ := shape?_eq_union_iff.1 hu
    exact ⟨u', hu', heq ▸ hnodup, heq ▸ hmembers⟩
  refine ⟨fun t ht hsub => ?_, fun t ht hleaf => ?_, fun t ht hsub => ?_, fun key u hu => ?_⟩
  · have hname := List.mem_map_of_mem (f := (·.name)) ht
    obtain ⟨u, hu, hnodup, hmembers⟩ :=
      hunion t.name ((Types.isBase_iff_hasSubtypes ho hname).2 hsub)
    exact ⟨u, hu, hnodup, fun m => (hmembers m).trans (isMember_iff ho hname)⟩
  · have hname := List.mem_map_of_mem (f := (·.name)) ht
    have hbase := (not_congr (Types.isBase_iff_hasSubtypes ho hname)).2 hleaf
    have hmember : Types.IsMember d h t.name t.name :=
      ⟨t.name, .inl rfl, by rw [Hierarchy.objectKey, if_neg hbase], fun hb => absurd hb hbase⟩
    exact shape?_eq_object_iff.1 (shape?_of_isMember hd ho hshape hname hmember)
  · have hname := List.mem_map_of_mem (f := (·.name)) ht
    have hbase := (Types.isBase_iff_hasSubtypes ho hname).2 hsub
    have hkey : h.objectKey t.name = baseKey t.name := by rw [Hierarchy.objectKey, if_pos hbase]
    rw [← shape?_eq_none_iff, hshape, hF, Option.map_eq_none_iff]
    refine ⟨fun hnone hhas => ?_, Types.get?_settled_baseKey ho hd hfields hname hbase⟩
    have hobject := Types.get?_settled_object ho hd hfields hname hhas
    rw [hkey, hnone] at hobject
    cases hobject
  · have hbase : h.isBase key = true := by
      have hu : r.shape? key = some (.union u.members) := shape?_eq_union_iff.2 ⟨u, hu, rfl⟩
      rw [hshape, hF, Option.map_eq_some_iff] at hu
      obtain ⟨t, ht, hunion⟩ := hu
      obtain ⟨u, rfl, _⟩ := Descriptor.shape_eq_union_iff.1 hunion
      exact Types.isBase_of_get?_settled ho hd ht
    obtain ⟨_, hext⟩ := ho.isBase_iff.1 hbase
    have hname := (Csdl.Document.typeNames_of_extends hext).2
    obtain ⟨u', hu', _, hmembers⟩ := hunion key hbase
    cases hu.symm.trans hu'
    refine ⟨?_, fun m hm => shape?_eq_object_iff.1
      (shape?_of_isMember hd ho hshape hname ((hmembers m).1 hm))⟩
    obtain ⟨leaf, hway, hleaf⟩ := ho.exists_leaf hbase
    have hmember : Types.IsMember d h key leaf :=
      ⟨leaf, .inr hway, by rw [Hierarchy.objectKey, if_neg hleaf], fun hb => absurd hb hleaf⟩
    exact List.ne_nil_of_mem ((hmembers leaf).2 hmember)

/-- An abstract type without fields, and some types below it. -/
def kennel : Csdl.Document where
  structuredTypes := [
    { name := "Animal", isAbstract := true },
    { name := "Dog", base := some "Zoo.Animal"
      members := [{ name := "Breed", type := "Edm.String" }] },
    { name := "Puppy", base := some "Zoo.Dog" }]

theorem extends_kennel_iff {name base : String} :
    Extends kennel.structuredTypes name base ↔
      name = "Dog" ∧ base = "Animal" ∨ name = "Puppy" ∧ base = "Dog" := by
  have hAnimal : Csdl.StructuredType.baseName kennel.structuredTypes[1] = some "Animal" := by
    decide
  have hDog : Csdl.StructuredType.baseName kennel.structuredTypes[2] = some "Dog" := by
    decide
  have hnone : Csdl.StructuredType.baseName kennel.structuredTypes[0] = none := by
    decide
  simp only [kennel, List.getElem_cons_zero, List.getElem_cons_succ] at hAnimal hDog hnone
  simp only [Extends, kennel, List.mem_cons, List.not_mem_nil, or_false, exists_eq_or_imp,
    exists_eq_left, hAnimal, hDog, hnone, Option.some.injEq, List.map_cons, List.map_nil]
  aesop

theorem wellNamed_kennel : kennel.WellNamed where
  nodup := by decide
  not_isBaseKey := by
    simp only [← isBaseKey_iff]
    decide

theorem hasFields_kennel : ¬ kennel.HasFields "Animal" ∧ kennel.HasFields "Dog" := by
  constructor
  · rintro ⟨top, hway, hcontributes⟩
    rcases hway.cases_head with rfl | ⟨next, hext, _⟩
    · simp [Csdl.Document.Contributes, kennel] at hcontributes
    · simp [extends_kennel_iff] at hext
  · refine ⟨"Dog", .refl, .inl ⟨_, List.mem_cons_of_mem _ List.mem_cons_self, rfl, _,
      List.mem_cons_self, by decide, .inl (by decide)⟩⟩

theorem unions_of_kennel :
    ∃ r, build ⟨"zoo", "http://zoo.test/odata"⟩ kennel = .ok r ∧ r.get? "Animal_Base" = none ∧
      ∃ u, r.get? "Animal" = some (.union u) ∧ "Animal_Base" ∉ u.members ∧
        "Dog_Base" ∈ u.members ∧ "Puppy" ∈ u.members := by
  have hbuilds : (build ⟨"zoo", "http://zoo.test/odata"⟩ kennel).toOption.isSome = true := by
    decide
  cases hr : build ⟨"zoo", "http://zoo.test/odata"⟩ kennel with
  | error error => rw [hr] at hbuilds; cases hbuilds
  | ok r =>
    obtain ⟨hunions, _, hmissing, _⟩ :=
      unions_of_build wellNamed_kennel (fun _ h => by cases h) hr
    have hAnimal : kennel.HasSubtypes "Animal" := by
      obtain ⟨t, ht, _, hbase, _⟩ := extends_kennel_iff.2 (.inl ⟨rfl, rfl⟩)
      exact ⟨t, ht, hbase⟩
    have hDog : kennel.HasSubtypes "Dog" := by
      obtain ⟨t, ht, _, hbase, _⟩ := extends_kennel_iff.2 (.inr ⟨rfl, rfl⟩)
      exact ⟨t, ht, hbase⟩
    have hPuppy : ¬ kennel.HasSubtypes "Puppy" := by
      rintro ⟨t, ht, hbase⟩
      have hext := extends_kennel_iff.1 ⟨t, ht, rfl, hbase, by decide⟩
      simp at hext
    have hbelow : TransGen (Extends kennel.structuredTypes) "Dog" "Animal" :=
      .single (extends_kennel_iff.2 (.inl ⟨rfl, rfl⟩))
    have hbelow' : TransGen (Extends kennel.structuredTypes) "Puppy" "Animal" :=
      .head (extends_kennel_iff.2 (.inr ⟨rfl, rfl⟩)) hbelow
    obtain ⟨u, hu, _, hmembers⟩ := hunions _ List.mem_cons_self hAnimal
    refine ⟨r, rfl, (hmissing _ List.mem_cons_self hAnimal).2 hasFields_kennel.1, u, hu, ?_, ?_, ?_⟩
    · intro hmem
      obtain ⟨s, hs, ⟨_, hfields, hkey⟩ | ⟨_, rfl⟩⟩ := (hmembers _).1 hmem
      · rw [show "Animal_Base" = baseKey "Animal" from rfl, baseKey_inj] at hkey
        exact hasFields_kennel.1 (hkey ▸ hfields)
      · exact absurd (Csdl.Document.typeNames_of_below (by decide) hs) (by decide)
    · exact (hmembers _).2 ⟨"Dog", .inr hbelow, .inl ⟨hDog, hasFields_kennel.2, rfl⟩⟩
    · exact (hmembers _).2 ⟨"Puppy", .inr hbelow', .inr ⟨hPuppy, rfl⟩⟩
end Registry

end ODataGraph
