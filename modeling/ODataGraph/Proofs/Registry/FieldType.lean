import ODataGraph.Proofs.Registry.Closure
import ODataGraph.Proofs.Registry.Subsumption

/-!
How deep the lists are that fields hold. What a document can write is a type or a list of one, so
that no field of a registry holds lists of lists.
-/

namespace ODataGraph

open Csdl (StructuredType Function)

namespace TypeReference

/-- How many lists the elements of a type are in. -/
def depth : TypeReference → Nat
  | .list t => t.depth + 1
  | .nonNull t => t.depth
  | _ => 0

theorem isList_iff {t : TypeReference} : t.isList = true ↔ 0 < t.depth := by
  induction t with
  | scalar s => simp [isList, depth]
  | named key => simp [isList, depth]
  | list t => simp [isList, depth]
  | nonNull t ih => exact ih

end TypeReference

/-- A field without lists of lists. -/
def Field.Flat (f : Field) : Prop := f.type.depth ≤ 1

/-- The augmentation gives no object a field with lists of lists. -/
def Augmentation.KeepsFlat (a : Augmentation) : Prop :=
  ∀ t : Descriptor, t.AllFields Field.Flat → (a t).AllFields Field.Flat

namespace Types

variable {ts : Types} {service : Service} {d : Csdl.Document} {h : Hierarchy} {key type : String}
  {t : TypeReference} {P : Field → Prop}

theorem depth_le_of_resolve? (ht : ts.resolve? type = some t) : t.depth ≤ 1 := by
  rw [resolve?_eq, Option.map_eq_some_iff] at ht
  obtain ⟨element, helement, rfl⟩ := ht
  have hdepth : element.depth = 0 := by
    rcases element?_eq_some_iff.1 helement with ⟨s, _, rfl⟩ | ⟨_, _, rfl⟩ <;> rfl
  split
  · rw [TypeReference.depth, hdepth]
  · rw [hdepth]
    exact Nat.zero_le 1

theorem flat_of_memberField? {m : Csdl.Member} {p : String × Field}
    (hp : ts.memberField? m = some p) : p.2.Flat := by
  obtain ⟨t, ht, rfl⟩ := Option.map_eq_some_iff.1 hp
  exact depth_le_of_resolve? ht

theorem flat_of_functionField? {f : Function} {binding : String} {p : String × Field}
    (hp : ts.functionField? f binding = some p) : p.2.Flat := by
  simp only [functionField?, Option.bind_eq_bind, Option.bind_eq_some_iff] at hp
  obtain ⟨_, _, t, ht, _, _, hp⟩ := hp
  cases hp
  exact depth_le_of_resolve? ht

/-- All fields of objects have a property. -/
def AllFields (ts : Types) (P : Field → Prop) : Prop :=
  ∀ key t, ts.get? key = some t → t.AllFields P

namespace AllFields

theorem setFields {F : FieldMap} (hF : F.All P) : (ts.setFields F).AllFields P := by
  intro key t ht o ho field f hf
  rw [get?_setFields, Option.map_eq_some_iff] at ht
  obtain ⟨t', _, rfl⟩ := ht
  cases t' <;> cases ho
  exact hF key field f hf

theorem settle (hts : ts.AllFields P) (hP : P placeholder) (key : String) :
    (ts.settle key).AllFields P := by
  rintro k _ ht o rfl
  rcases object_of_settle ht with ⟨_, ho⟩ | ⟨o₀, _, ho₀, rfl, _⟩
  · exact hts k _ ho o rfl
  · exact (hts key _ ho₀).addPlaceholder hP o₀.addPlaceholder rfl

theorem foldl_settle (hts : ts.AllFields P) (hP : P placeholder) (keys : List String) :
    (keys.foldl Types.settle ts).AllFields P := by
  induction keys generalizing ts with
  | nil => exact hts
  | cons key rest ih => exact ih (hts.settle hP key)

end AllFields

theorem flat_ofDocument (service : Service) (d : Csdl.Document) (h : Hierarchy) :
    (ofDocument service d h).AllFields Field.Flat := by
  obtain ⟨F, hF, hall⟩ := exists_ofDocument_all (P := Field.Flat) service d h (Nat.zero_le 1)
    (fun _ _ _ _ _ hp => flat_of_memberField? hp) fun _ _ _ _ hp => flat_of_functionField? hp
  rw [hF]
  exact (AllFields.setFields hall).foldl_settle (Nat.zero_le 1) _

end Types

/-- An entity set lists entities, and a singleton is one. -/
theorem Roots.flat_of_get? {d : Csdl.Document} {ts : Types} {field : String} {f : Field}
    (hf : (ofContainer d ts).fields.get? field = some f) : f.Flat :=
  all_ofContainer (fun _ _ => Nat.zero_le 1) (fun _ _ => le_rfl) hf

namespace Registry

variable {service : Service} {d : Csdl.Document} {augmentation : Option Augmentation} {r : Registry}
  {key field : String} {o : ObjectType} {f : Field}

/-- The object is one of the registry's types or one of its roots. -/
def Exposes (r : Registry) (o : ObjectType) : Prop :=
  (∃ key, r.object? key = some o) ∨ o = r.queryRoot ∨ o = r.mutationRoot

theorem flat_augmentRoot {a : Augmentation} (ha : a.KeepsFlat) {root : ObjectType}
    (hroot : Descriptor.AllFields (.object root) Field.Flat) :
    Descriptor.AllFields (.object (augmentRoot a root)) Field.Flat := by
  intro o' ho'
  cases ho'
  rw [augmentRoot]
  cases ho : (a (.object root)).object? with
  | none => exact hroot root rfl
  | some o => exact ha _ hroot o (Descriptor.object?_eq_some_iff.1 ho)

theorem flat_root_of_build (ha : ∀ a ∈ augmentation, a.KeepsFlat)
    (hr : build service d augmentation = .ok r) (ho : o = r.queryRoot ∨ o = r.mutationRoot) :
    Descriptor.AllFields (.object o) Field.Flat := by
  obtain ⟨_, r₀, _, hmade, rfl⟩ := exists_augmented_of_build hr
  have hquery : Descriptor.AllFields (.object r₀.queryRoot) Field.Flat := by
    intro o ho field f hf
    cases ho
    rw [hmade.queryRoot] at hf
    exact Roots.flat_of_get? hf
  have hmutation : Descriptor.AllFields (.object r₀.mutationRoot) Field.Flat := by
    intro o ho field f hf
    cases ho
    simp only [hmade.mutationRoot, ObjectType.mutationRoot, OrderedMap.get?_insert] at hf
    split at hf
    · cases hf
      exact Nat.zero_le 1
    · cases hf
  cases augmentation with
  | none =>
    rcases ho with rfl | rfl
    · exact hquery
    · exact hmutation
  | some a =>
    rcases ho with rfl | rfl
    · exact flat_augmentRoot (ha a rfl) hquery
    · exact flat_augmentRoot (ha a rfl) hmutation

/-- No field of a registry holds lists of lists. -/
theorem flat_of_build (ha : ∀ a ∈ augmentation, a.KeepsFlat)
    (hr : build service d augmentation = .ok r) (ho : r.Exposes o)
    (hf : o.fields.get? field = some f) : f.type.depth ≤ 1 := by
  rcases ho with ⟨key, ho⟩ | hroot
  · obtain ⟨h, _, hget⟩ := exists_get?_of_build hr
    rw [object?_eq_some_iff, hget, Option.map_eq_some_iff] at ho
    obtain ⟨t, ht, hobject⟩ := ho
    have hplain : (t.annotate d key).AllFields Field.Flat := by
      apply (Types.flat_ofDocument service d h key t ht).annotate
      intro f g hcore hflat
      have htype : f.type = g.type := congrArg Prod.fst hcore
      rwa [Field.Flat, ← htype]
    cases augmentation with
    | none => exact hplain o hobject field f hf
    | some a => exact ha a rfl _ hplain o hobject field f hf
  · exact flat_root_of_build ha hr hroot o rfl field f hf

end Registry

end ODataGraph
