import ODataGraph.Proofs.Registry.UnionMembers
import ODataGraph.Registry.Build

/-!
The types of a document before they have fields: one for every declared name, and for every base
the union in its place and its own object under the base key.
-/

namespace ODataGraph

open Csdl (StructuredType Extends)

namespace Csdl.Document

/-- The names of structured types. -/
def typeNames (d : Csdl.Document) : List String := d.structuredTypes.map (·.name)

def declaredNames (d : Csdl.Document) : List String :=
  d.enumTypes.map (·.name) ++ d.typeNames

/-- The unqualified names of the types that are referred to. -/
def referencedNames (d : Csdl.Document) : List String :=
  d.structuredTypes.filterMap (·.baseName) ++
    d.structuredTypes.flatMap (fun t => t.members.map fun m => (TypeRef.parse m.type).localName) ++
    d.functions.flatMap (fun f => f.parameters.map fun p => (TypeRef.parse p.type).localName) ++
    d.functions.filterMap (fun f => f.returnType.map fun t => (TypeRef.parse t).localName) ++
    d.container.map (fun e => localName e.type)

/-- Structured types have distinct names, and no declared or referenced type is named like a base
variant. -/
structure WellNamed (d : Csdl.Document) : Prop where
  nodup : d.typeNames.Nodup
  not_isBaseKey : ∀ name ∈ d.declaredNames ++ d.referencedNames, ¬ IsBaseKey name

variable {d : Csdl.Document} {name base : String}

theorem WellNamed.of_declared (hd : d.WellNamed) (h : name ∈ d.declaredNames) :
    ¬ IsBaseKey name :=
  hd.not_isBaseKey name (List.mem_append_left _ h)

theorem WellNamed.of_typeNames (hd : d.WellNamed) (h : name ∈ d.typeNames) : ¬ IsBaseKey name :=
  hd.of_declared (List.mem_append_right _ h)

theorem typeNames_of_extends (h : Extends d.structuredTypes name base) :
    name ∈ d.typeNames ∧ base ∈ d.typeNames := by
  obtain ⟨t, ht, rfl, _, hbase⟩ := h
  exact ⟨List.mem_map_of_mem (f := (·.name)) ht, hbase⟩

theorem typeNames_of_below (hname : name ∈ d.typeNames) {s : String}
    (hs : s = name ∨ Relation.TransGen (Extends d.structuredTypes) s name) : s ∈ d.typeNames := by
  rcases hs with rfl | hs
  · exact hname
  · obtain ⟨_, hext, _⟩ := Relation.TransGen.head'_iff.1 hs
    exact (typeNames_of_extends hext).1

theorem WellNamed.of_extends (hd : d.WellNamed) (h : Extends d.structuredTypes name base) :
    ¬ IsBaseKey name :=
  hd.of_typeNames (typeNames_of_extends h).1

theorem WellNamed.not_isVariant_of_extends {h : Hierarchy} (hd : d.WellNamed)
    (hext : Extends d.structuredTypes name base) : ¬ h.IsVariant name :=
  fun hv => hd.of_extends hext hv.isBaseKey

end Csdl.Document

/-- A structured type with nothing but its raw value. -/
def ObjectType.bare (service : Service) (key : String) : ObjectType where
  name := service.typeName key
  service := service
  fields := (∅ : OrderedMap String Field).insert rawValueField Types.rawValue

namespace Types

variable {service : Service} {ts : Types} {key : String}

/-- The enums and the structured types of a document, all by themselves. -/
def declared (service : Service) (d : Csdl.Document) : Types :=
  d.structuredTypes.foldl (addObject service) (d.enumTypes.foldl (addEnum service) ∅)

theorem get?_foldl_addObject (l : List StructuredType) (ts : Types) (key : String) :
    (l.foldl (addObject service) ts).get? key =
      if key ∈ l.map (·.name) then some (.object (.bare service key)) else ts.get? key := by
  induction l generalizing ts with
  | nil => simp
  | cons t rest ih =>
    simp only [List.foldl_cons, ih, addObject, OrderedMap.get?_insert, List.map_cons, List.mem_cons]
    by_cases hrest : key ∈ rest.map (·.name)
    · simp [hrest]
    · by_cases hkey : key = t.name
      · subst hkey
        simp [hrest, ObjectType.bare]
      · simp [hrest, hkey]

theorem mem_keys_foldl_addEnum {l : List Csdl.EnumType} :
    key ∈ (l.foldl (addEnum service) ts).keys ↔ key ∈ ts.keys ∨ key ∈ l.map (·.name) := by
  induction l generalizing ts with
  | nil => simp
  | cons t rest ih =>
    rw [List.foldl_cons, ih, addEnum, OrderedMap.keys_insert, List.map_cons, List.mem_cons]
    split
    · rename_i hmem
      constructor
      · exact fun h => h.imp_right .inr
      · rintro (h | rfl | h)
        · exact .inl h
        · exact .inl hmem
        · exact .inr h
    · rw [List.mem_append, List.mem_singleton, or_assoc]

theorem get?_foldl_addEnum {l : List Csdl.EnumType} {t : Descriptor}
    (h : (l.foldl (addEnum service) ts).get? key = some t) :
    ts.get? key = some t ∨ ∃ e, t = .enum e := by
  induction l generalizing ts with
  | nil => exact .inl h
  | cons e rest ih =>
    rw [List.foldl_cons] at h
    rcases ih h with h | h
    · rw [addEnum, OrderedMap.get?_insert] at h
      split at h
      · cases h
        exact .inr ⟨_, rfl⟩
      · exact .inl h
    · exact .inr h

variable {d : Csdl.Document}

theorem get?_declared (service : Service) (d : Csdl.Document) (key : String) :
    (declared service d).get? key =
      if key ∈ d.typeNames then some (.object (.bare service key))
      else (d.enumTypes.foldl (addEnum service) ∅ : Types).get? key :=
  get?_foldl_addObject _ _ _

theorem get?_declared_of_mem (h : key ∈ d.typeNames) :
    (declared service d).get? key = some (.object (.bare service key)) := by
  rw [get?_declared, if_pos h]

theorem mem_keys_declared : key ∈ (declared service d).keys ↔ key ∈ d.declaredNames := by
  rw [Csdl.Document.declaredNames, List.mem_append]
  by_cases h : key ∈ d.typeNames
  · simp [OrderedMap.mem_keys_iff, get?_declared_of_mem h, h]
  · rw [OrderedMap.mem_keys_iff, get?_declared, if_neg h, ← OrderedMap.mem_keys_iff,
      mem_keys_foldl_addEnum]
    simp [h, OrderedMap.keys, EmptyCollection.emptyCollection, OrderedMap.empty]

/-- Other names are those of enums. -/
theorem isEnum_of_get?_declared {t : Descriptor} (h : key ∉ d.typeNames)
    (ht : (declared service d).get? key = some t) : ∃ e, t = .enum e := by
  rw [get?_declared, if_neg h] at ht
  rcases get?_foldl_addEnum ht with hempty | he
  · cases hempty
  · exact he

/-- The declared types with a union in the place of every base. -/
def united (service : Service) (d : Csdl.Document) (h : Hierarchy) : Types :=
  h.addUnions service (declared service d)

end Types

namespace Hierarchy

variable {service : Service} {h : Hierarchy} {ts : Types} {key base : String}

/-- The union that a base becomes. -/
def unionOf (h : Hierarchy) (service : Service) (base : String) : UnionType where
  name := service.typeName base
  members := h.unionMembers base

theorem get?_addUnion {o : ObjectType} (ho : ts.get? base = some (.object o)) (key : String) :
    (h.addUnion service ts base).get? key =
      if key = baseKey base then some (.object { o with name := o.name ++ baseEnding })
      else if key = base then some (.union (h.unionOf service base)) else ts.get? key := by
  rw [addUnion, ho]
  simp only [OrderedMap.get?_insert, unionOf]

theorem bare_baseKey (service : Service) (base : String) :
    { ObjectType.bare service base with name := (ObjectType.bare service base).name ++ baseEnding }
      = ObjectType.bare service (baseKey base) := by
  simp only [ObjectType.bare, Service.typeName, baseKey, String.append_assoc]

/-- Bases change places one by one, which leaves the others as they were. -/
theorem get?_foldl_addUnion {l : List String} (hnodup : l.Nodup)
    (hl : ∀ base ∈ l, (∀ other ∈ l, base ≠ baseKey other) ∧
      ts.get? base = some (.object (.bare service base)))
    (key : String) :
    (l.foldl (h.addUnion service) ts).get? key =
      if key ∈ l then some (.union (h.unionOf service key))
      else if key ∈ l.map baseKey then some (.object (.bare service key)) else ts.get? key := by
  induction l generalizing ts with
  | nil => simp
  | cons base rest ih =>
    obtain ⟨hbase, hobject⟩ := hl base List.mem_cons_self
    obtain ⟨hnew, hrest⟩ := List.nodup_cons.1 hnodup
    have hget : ∀ key, (h.addUnion service ts base).get? key = _ := get?_addUnion hobject
    rw [bare_baseKey] at hget
    have hothers : ∀ other ∈ rest, (∀ o ∈ rest, other ≠ baseKey o) ∧
        (h.addUnion service ts base).get? other = some (.object (.bare service other)) := by
      intro other hother
      obtain ⟨hkey, ho⟩ := hl other (List.mem_cons_of_mem _ hother)
      have hne : other ≠ base := fun heq => hnew (heq ▸ hother)
      refine ⟨fun o h => hkey o (List.mem_cons_of_mem _ h), ?_⟩
      rw [hget, if_neg (hkey base List.mem_cons_self), if_neg hne, ho]
    simp only [List.foldl_cons, ih hrest hothers, hget, List.map_cons, List.mem_cons]
    by_cases hrest : key ∈ rest
    · simp [hrest]
    · by_cases hkey : key = base
      · subst hkey
        have hne : key ≠ baseKey key := hbase key List.mem_cons_self
        have hnot : key ∉ rest.map baseKey := by
          intro hmem
          obtain ⟨other, hother, heq⟩ := List.mem_map.1 hmem
          exact hbase other (List.mem_cons_of_mem _ hother) heq.symm
        simp only [hrest, if_false, hnot, if_neg hne, true_or, if_true]
      · by_cases hbaseKey : key = baseKey base
        · subst hbaseKey
          simp [hrest, hkey]
        · simp [hrest, hkey, hbaseKey]

end Hierarchy

/-- The hierarchy is one of types that a document declares, none of which is named like the base
variant of another. -/
structure Hierarchy.Fits (h : Hierarchy) (R : String → String → Prop) (d : Csdl.Document) :
    Prop where
  sorts : h.Sorts R
  declared : ∀ {name base}, R name base → name ∈ d.typeNames ∧ base ∈ d.typeNames
  not_isVariant : ∀ name ∈ d.typeNames, ¬ h.IsVariant name

theorem Csdl.Document.WellNamed.fits {d : Csdl.Document} {h : Hierarchy} (hd : d.WellNamed)
    (ho : h.Orders d.structuredTypes) : h.Fits (Extends d.structuredTypes) d where
  sorts := ho
  declared := typeNames_of_extends
  not_isVariant _ hname hv := hd.of_typeNames hname hv.isBaseKey

namespace Types

variable {service : Service} {d : Csdl.Document} {h : Hierarchy} {R : String → String → Prop}
  {key name : String}

/-- A type before it has fields: objects have nothing but their raw value, and unions stand for
types that others extend. -/
def Plain (h : Hierarchy) (key : String) : Descriptor → Prop
  | .enum _ => True
  | .object o => o.fields = (∅ : OrderedMap String Field).insert rawValueField rawValue ∧
      o.arguments = ∅
  | .union _ => h.isBase key = true

theorem plain_of_get?_declared {t : Descriptor} (ht : (declared service d).get? key = some t) :
    Plain h key t := by
  by_cases hkey : key ∈ d.typeNames
  · rw [get?_declared_of_mem hkey] at ht
    cases ht
    exact ⟨rfl, rfl⟩
  · obtain ⟨e, rfl⟩ := isEnum_of_get?_declared hkey ht
    exact trivial

theorem plain_of_get?_addUnion {ts : Types} {base : String} (hbase : h.isBase base = true)
    (hts : ∀ key t, ts.get? key = some t → Plain h key t) {t : Descriptor}
    (ht : (h.addUnion service ts base).get? key = some t) : Plain h key t := by
  rw [Hierarchy.addUnion] at ht
  split at ht
  · rename_i o ho
    rw [OrderedMap.get?_insert] at ht
    split at ht
    · cases ht
      exact hts base (.object o) ho
    · rw [OrderedMap.get?_insert] at ht
      split at ht
      · rename_i hkey
        cases ht
        exact hkey ▸ hbase
      · exact hts key t ht
  · exact hts key t ht

theorem plain_of_get?_united {t : Descriptor} (ht : (united service d h).get? key = some t) :
    Plain h key t := by
  suffices hfold : ∀ (bases : List String) (ts : Types), (∀ base ∈ bases, h.isBase base = true) →
      (∀ key t, ts.get? key = some t → Plain h key t) →
      ∀ key t, (bases.foldl (h.addUnion service) ts).get? key = some t → Plain h key t by
    refine hfold h.baseNames (declared service d) (fun base hbase => ?_)
      (fun _ _ => plain_of_get?_declared) key t ht
    obtain ⟨e, he, rfl⟩ := List.mem_map.1 (List.mem_eraseDups.1 hbase)
    exact List.any_eq_true.2 ⟨e, he, beq_self_eq_true _⟩
  intro bases
  induction bases with
  | nil => exact fun _ _ hts => hts
  | cons base rest ih =>
    refine fun ts hbases hts => ih _ (fun b hb => hbases b (List.mem_cons_of_mem _ hb)) ?_
    exact fun _ _ => plain_of_get?_addUnion (hbases base List.mem_cons_self) hts

theorem mem_baseNames_iff (ho : h.Sorts R) : name ∈ h.baseNames ↔ h.isBase name = true :=
  ho.mem_baseNames.trans ho.isBase_iff.symm

theorem typeNames_of_mem_baseNames (hf : h.Fits R d) (hname : name ∈ h.baseNames) :
    name ∈ d.typeNames := by
  obtain ⟨_, hext⟩ := hf.sorts.mem_baseNames.1 hname
  exact (hf.declared hext).2

theorem get?_united (hf : h.Fits R d) (key : String) :
    (united service d h).get? key =
      if key ∈ h.baseNames then some (.union (h.unionOf service key))
      else if key ∈ h.baseNames.map baseKey then some (.object (.bare service key))
      else (declared service d).get? key := by
  refine Hierarchy.get?_foldl_addUnion (Hierarchy.nodup_eraseDups _) (fun base hbase => ?_) key
  have hdeclared := typeNames_of_mem_baseNames hf hbase
  refine ⟨fun other hother heq => hf.not_isVariant base hdeclared ?_, get?_declared_of_mem hdeclared⟩
  exact ⟨other, (mem_baseNames_iff hf.sorts).1 hother, heq⟩

theorem get?_united_of_isBase (hf : h.Fits R d) (hbase : h.isBase name = true) :
    (united service d h).get? name = some (.union (h.unionOf service name)) := by
  rw [get?_united hf, if_pos ((mem_baseNames_iff hf.sorts).2 hbase)]

/-- Without a type that extends it a type stays as it was. -/
theorem get?_united_of_not_isVariant (hf : h.Fits R d) (hkey : ¬ h.IsVariant key)
    (hbase : ¬ h.isBase key = true) :
    (united service d h).get? key = (declared service d).get? key := by
  rw [get?_united hf, if_neg (fun hmem => hbase ((mem_baseNames_iff hf.sorts).1 hmem)), if_neg]
  intro hmem
  obtain ⟨base, hmember, rfl⟩ := List.mem_map.1 hmem
  exact hkey ⟨base, (mem_baseNames_iff hf.sorts).1 hmember, rfl⟩

theorem get?_united_baseKey (hf : h.Fits R d) (hbase : h.isBase name = true) :
    (united service d h).get? (baseKey name) = some (.object (.bare service (baseKey name))) := by
  have hnot : baseKey name ∉ h.baseNames := fun hmem =>
    hf.not_isVariant _ (typeNames_of_mem_baseNames hf hmem) ⟨name, hbase, rfl⟩
  have hmem : baseKey name ∈ h.baseNames.map baseKey :=
    List.mem_map_of_mem ((mem_baseNames_iff hf.sorts).2 hbase)
  rw [get?_united hf, if_neg hnot, if_pos hmem]

theorem get?_united_objectKey (hf : h.Fits R d) (hname : name ∈ d.typeNames) :
    (united service d h).get? (h.objectKey name) =
      some (.object (.bare service (h.objectKey name))) := by
  rw [Hierarchy.objectKey]
  split
  · rename_i hbase
    exact get?_united_baseKey hf hbase
  · rename_i hbase
    rw [get?_united_of_not_isVariant hf (hf.not_isVariant name hname) hbase,
      get?_declared_of_mem hname]

/-- Every type is an enum, the object of a structured type, or the union in the place of one. -/
theorem cases_get?_united (hf : h.Fits R d) {t : Descriptor}
    (ht : (united service d h).get? key = some t) :
    (∃ e, t = .enum e) ∨
    (∃ name ∈ d.typeNames, key = h.objectKey name ∧ t = .object (.bare service key)) ∨
    (h.isBase key = true ∧ t = .union (h.unionOf service key)) := by
  rw [get?_united hf] at ht
  split at ht
  · rename_i hbase
    cases ht
    exact .inr (.inr ⟨(mem_baseNames_iff hf.sorts).1 hbase, rfl⟩)
  · rename_i hbase
    split at ht
    · rename_i hmem
      cases ht
      obtain ⟨name, hname, rfl⟩ := List.mem_map.1 hmem
      refine .inr (.inl ⟨name, typeNames_of_mem_baseNames hf hname, ?_, rfl⟩)
      rw [Hierarchy.objectKey, if_pos ((mem_baseNames_iff hf.sorts).1 hname)]
    · by_cases hkey : key ∈ d.typeNames
      · rw [get?_declared_of_mem hkey] at ht
        cases ht
        refine .inr (.inl ⟨key, hkey, ?_, rfl⟩)
        rw [Hierarchy.objectKey, if_neg fun hb => hbase ((mem_baseNames_iff hf.sorts).2 hb)]
      · exact .inl (isEnum_of_get?_declared hkey ht)

/-- The fields of a structured type are those of its object; no other name stands for any. -/
theorem fieldsKey?_united (ho : h.Orders d.structuredTypes) (hd : d.WellNamed)
    (hkey : ¬ IsBaseKey key) :
    (united service d h).fieldsKey? key =
      if key ∈ d.typeNames then some (h.objectKey key) else none := by
  rw [fieldsKey?, Hierarchy.objectKey]
  by_cases hbase : h.isBase key = true
  · obtain ⟨_, hext⟩ := ho.isBase_iff.1 hbase
    rw [get?_united_of_isBase (hd.fits ho) hbase, if_pos (Csdl.Document.typeNames_of_extends hext).2,
      if_pos hbase]
  · rw [get?_united_of_not_isVariant (hd.fits ho) (fun hv => hkey hv.isBaseKey) hbase, if_neg hbase]
    by_cases hmem : key ∈ d.typeNames
    · rw [get?_declared_of_mem hmem, if_pos hmem]
    · rw [if_neg hmem]
      cases ht : (declared service d).get? key with
      | none => rfl
      | some t =>
        obtain ⟨e, rfl⟩ := isEnum_of_get?_declared hmem ht
        rfl

theorem contains_united (ho : h.Orders d.structuredTypes) (hd : d.WellNamed)
    (hkey : ¬ IsBaseKey key) :
    (united service d h).contains key = true ↔ key ∈ d.declaredNames := by
  have hdeclared : key ∈ d.declaredNames ↔ key ∈ (declared service d).keys :=
    mem_keys_declared.symm
  rw [OrderedMap.contains_iff, hdeclared, OrderedMap.mem_keys_iff, OrderedMap.mem_keys_iff]
  by_cases hbase : h.isBase key = true
  · obtain ⟨_, hext⟩ := ho.isBase_iff.1 hbase
    have hdeclared := (Csdl.Document.typeNames_of_extends hext).2
    simp [get?_united_of_isBase (hd.fits ho) hbase, get?_declared_of_mem hdeclared]
  · rw [get?_united_of_not_isVariant (hd.fits ho) (fun hv => hkey hv.isBaseKey) hbase]

end Types

end ODataGraph
