import ODataGraph.Proofs.Registry.Settlement

/-!
Types that are alike: the same ones up to the order in which they stand, and each the same up to the
order of a union's members. What is done to types once they have fields keeps them alike, and the
roots made from like types are the same.
-/

namespace ODataGraph

namespace Descriptor

/-- The same type, up to the order of the members of a union. -/
inductive Alike : Descriptor → Descriptor → Prop
  | refl (t : Descriptor) : Alike t t
  | union {u : UnionType} {members : List String} : u.members.Perm members →
      Alike (.union u) (.union { u with members })

namespace Alike

variable {t t' : Descriptor} {o : ObjectType}

theorem name_eq (h : t.Alike t') : t.name = t'.name := by
  cases h <;> rfl

theorem eq_object_iff (h : t.Alike t') : t = .object o ↔ t' = .object o := by
  cases h with
  | refl => rfl
  | union hmembers => exact ⟨nofun, nofun⟩

theorem object?_eq (h : t.Alike t') : t.object? = t'.object? := by
  cases h <;> rfl

theorem addPlaceholder (h : t.Alike t') : t.addPlaceholder.Alike t'.addPlaceholder := by
  cases h with
  | refl => exact .refl _
  | union hmembers => exact .union hmembers

theorem leave (gone : List String) (h : t.Alike t') : (t.leave gone).Alike (t'.leave gone) := by
  cases h with
  | refl => exact .refl _
  | union hmembers => exact .union (hmembers.filter _)

theorem settled (keys : List String) (key : String) (h : t.Alike t') :
    (Types.settled keys key t).Alike (Types.settled keys key t') := by
  rw [Types.settled, Types.settled]
  split
  · exact h.addPlaceholder
  · exact h.leave _

theorem annotate (d : Csdl.Document) (key : String) (h : t.Alike t') :
    (t.annotate d key).Alike (t'.annotate d key) := by
  cases h with
  | refl => exact .refl _
  | union hmembers => exact .union hmembers

end Alike

end Descriptor

namespace Types

theorem settled_congr {keys keys' : List String} (h : ∀ key, key ∈ keys ↔ key ∈ keys') :
    settled keys = settled keys' := by
  have hgone : ∀ key,
      (keys.filter isBaseKey).contains key = (keys'.filter isBaseKey).contains key := by
    intro key
    rw [Bool.eq_iff_iff, List.contains_iff_mem, List.contains_iff_mem, List.mem_filter,
      List.mem_filter, h]
  funext key t
  cases t <;> simp only [settled, h, Descriptor.leave, hgone]

/-- Under every key stand like types, or none. -/
def Alike (ts ts' : Types) : Prop :=
  ∀ key, Option.Rel Descriptor.Alike (ts.get? key) (ts'.get? key)

namespace Alike

variable {ts ts' : Types} {key : String} {o : ObjectType}

theorem cases (h : ts.Alike ts') (key : String) :
    (ts.get? key = none ∧ ts'.get? key = none) ∨
      ∃ t t', ts.get? key = some t ∧ ts'.get? key = some t' ∧ t.Alike t' := by
  have hkey := h key
  cases ht : ts.get? key with
  | none =>
    cases ht' : ts'.get? key with
    | none => exact .inl ⟨rfl, rfl⟩
    | some t' =>
      rw [ht, ht'] at hkey
      cases hkey
  | some t =>
    cases ht' : ts'.get? key with
    | none =>
      rw [ht, ht'] at hkey
      cases hkey
    | some t' =>
      rw [ht, ht'] at hkey
      cases hkey with
      | some halike => exact .inr ⟨t, t', rfl, rfl, halike⟩

theorem get?_eq_object_iff (h : ts.Alike ts') :
    ts.get? key = some (.object o) ↔ ts'.get? key = some (.object o) := by
  obtain ⟨hnone, hnone'⟩ | ⟨t, t', ht, ht', halike⟩ := h.cases key
  · rw [hnone, hnone']
  · rw [ht, ht', Option.some.injEq, Option.some.injEq, halike.eq_object_iff]

theorem keys_perm (h : ts.Alike ts') : ts.keys.Perm ts'.keys := by
  refine (List.perm_ext_iff_of_nodup ts.nodup ts'.nodup).2 fun key => ?_
  have hmem : key ∈ ts.keys ↔ key ∈ ts'.keys := by
    rw [← not_iff_not, ← OrderedMap.get?_eq_none_iff, ← OrderedMap.get?_eq_none_iff]
    obtain ⟨hnone, hnone'⟩ | ⟨t, t', ht, ht', _⟩ := h.cases key
    · rw [hnone, hnone']
    · rw [ht, ht']
      exact ⟨nofun, nofun⟩
  exact hmem

theorem rel_map {f f' : Descriptor → Descriptor} (h : ts.Alike ts')
    (hf : ∀ t t', ts.get? key = some t → t.Alike t' → (f t).Alike (f' t')) :
    Option.Rel Descriptor.Alike ((ts.get? key).map f) ((ts'.get? key).map f') := by
  obtain ⟨hnone, hnone'⟩ | ⟨t, t', ht, ht', halike⟩ := h.cases key
  · rw [hnone, hnone']
    exact .none
  · rw [ht, ht']
    exact .some (hf t t' ht halike)

theorem map {f f' : String → Descriptor → Descriptor} (h : ts.Alike ts')
    (hf : ∀ key t t', t.Alike t' → (f key t).Alike (f' key t')) :
    Types.Alike (OrderedMap.map ts f) (OrderedMap.map ts' f') := by
  intro key
  rw [OrderedMap.get?_map, OrderedMap.get?_map]
  exact h.rel_map fun t t' _ halike => hf key t t' halike

theorem setFields {F F' : FieldMap} (h : ts.Alike ts')
    (hF : ∀ key o, ts.get? key = some (.object o) → F key = F' key) :
    (ts.setFields F).Alike (ts'.setFields F') := by
  intro key
  rw [get?_setFields, get?_setFields]
  refine h.rel_map fun t t' ht halike => ?_
  cases halike with
  | refl =>
    cases t with
    | object o =>
      rw [hF key o ht]
      exact .refl _
    | enum e => exact .refl _
    | union u => exact .refl _
  | union hmembers => exact .union hmembers

/-- Like types are settled alike: the same objects are empty, and the same base variants leave the
unions. -/
theorem settleEmpty (h : ts.Alike ts') (hs : ts.Settleable) (hs' : ts'.Settleable) :
    ts.settleEmpty.Alike ts'.settleEmpty := by
  have hempty : ∀ key, key ∈ ts.emptyKeys ↔ key ∈ ts'.emptyKeys := by
    intro key
    simp only [mem_emptyKeys, h.get?_eq_object_iff]
  intro key
  rw [get?_settleEmpty hs, get?_settleEmpty hs', settled_congr hempty]
  simp only [hempty]
  split
  · exact .none
  · exact h.rel_map fun t t' _ halike => halike.settled _ _

theorem fieldsKey?_eq (h : ts.Alike ts') (key : String) :
    ts.fieldsKey? key = ts'.fieldsKey? key := by
  rw [fieldsKey?, fieldsKey?]
  obtain ⟨hnone, hnone'⟩ | ⟨t, t', ht, ht', halike⟩ := h.cases key
  · rw [hnone, hnone']
  · rw [ht, ht']
    cases halike <;> rfl

theorem object?_eq (h : ts.Alike ts') (key : String) : ts.object? key = ts'.object? key := by
  rw [object?, object?, h.fieldsKey?_eq]
  cases ts'.fieldsKey? key with
  | none => rfl
  | some objectKey =>
    simp only [Option.bind_eq_bind, Option.bind_some]
    obtain ⟨hnone, hnone'⟩ | ⟨t, t', ht, ht', halike⟩ := h.cases objectKey
    · rw [hnone, hnone']
    · rw [ht, ht', Option.bind_some, Option.bind_some, halike.object?_eq]

/-- Roots see of a type its name and the query options for it. -/
theorem ofContainer_eq (d : Csdl.Document) (h : ts.Alike ts') :
    Roots.ofContainer d ts = Roots.ofContainer d ts' := by
  have hadd : Roots.addEntry d ts = Roots.addEntry d ts' := by
    funext roots entry
    simp only [Roots.addEntry, listArguments, h.object?_eq]
    obtain ⟨hnone, hnone'⟩ | ⟨t, t', ht, ht', halike⟩ := h.cases (Csdl.localName entry.type)
    · rw [hnone, hnone']
    · rw [ht, ht']
      simp only [halike.name_eq]
  rw [Roots.ofContainer, Roots.ofContainer, hadd]

end Alike

end Types

/-- The same registry, up to the order of the types and of the members of each union. -/
structure Registry.Alike (r r' : Registry) : Prop where
  service : r.service = r'.service
  keys : r.types.keys.Perm r'.types.keys
  types : r.types.Alike r'.types
  entitySets : r.entitySets = r'.entitySets
  queryRoot : r.queryRoot = r'.queryRoot
  mutationRoot : r.mutationRoot = r'.mutationRoot

/-- What the augmentation does to a union has nothing to do with the order of its members. -/
def Augmentation.IgnoresOrder (a : Augmentation) : Prop :=
  ∀ {t t' : Descriptor}, t.Alike t' → (a t).Alike (a t')

theorem Registry.Alike.augment {r r' : Registry} {a : Augmentation} (ha : a.IgnoresOrder)
    (h : r.Alike r') : (augment a r).Alike (augment a r') where
  service := h.service
  keys := by
    simp only [Registry.augment, OrderedMap.keys_map]
    exact h.keys
  types := h.types.map fun _ _ _ => ha
  entitySets := h.entitySets
  queryRoot := congrArg (augmentRoot a) h.queryRoot
  mutationRoot := congrArg (augmentRoot a) h.mutationRoot

end ODataGraph
