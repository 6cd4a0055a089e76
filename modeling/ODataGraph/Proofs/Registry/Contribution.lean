import ODataGraph.Proofs.Registry.FieldInheritance

/-!
What types contribute, read off the document: the members and bound functions whose types can be
represented. An object has declared fields exactly if its type or one above it contributes some.
-/

namespace ODataGraph

open Csdl (StructuredType Member Function Parameter TypeRef Extends)
open Relation (ReflTransGen)

/-- A field that an entity can have. -/
def FieldKind.ofEntity : FieldKind → Bool
  | .entitySet | .singleton => false
  | _ => true

/-- A field that a root can have. -/
def FieldKind.ofRoot : FieldKind → Bool
  | .entitySet | .singleton | .placeholder => true
  | _ => false

namespace Csdl.Document

/-- A type that fields can have: a primitive one with a scalar, or a declared one. -/
def Represents (d : Csdl.Document) (type : String) : Prop :=
  (Scalar.ofPrimitive? (TypeRef.parse type).qualifiedName).isSome ∨
    (TypeRef.parse type).localName ∈ d.declaredNames

/-- A function can be a field of the type with a name: it is bound to it, and its other parameters
and what it returns can be represented. -/
def Attaches (d : Csdl.Document) (f : Function) (name : String) : Prop :=
  f.isBound = true ∧ ∃ binding, Types.bindingParameter? f = some binding ∧
    Types.ownerKey binding = name ∧ (∃ type, f.returnType = some type ∧ d.Represents type) ∧
    ∀ p ∈ f.parameters, p.name ≠ binding.name → d.Represents p.type

/-- A type has a field by itself, other than its raw value. -/
def Contributes (d : Csdl.Document) (name : String) : Prop :=
  (∃ t ∈ d.structuredTypes, t.name = name ∧
    ∃ m ∈ t.members, m.name ≠ rawValueField ∧ d.Represents m.type) ∨
  ∃ f ∈ d.functions, f.name ≠ rawValueField ∧ d.Attaches f name

variable {d : Csdl.Document}

theorem mem_referencedNames_of_member {t : StructuredType} {m : Member}
    (ht : t ∈ d.structuredTypes) (hm : m ∈ t.members) :
    (TypeRef.parse m.type).localName ∈ d.referencedNames := by
  simp only [referencedNames, List.mem_append, List.mem_flatMap, List.mem_map]
  exact .inl (.inl (.inl (.inr ⟨t, ht, m, hm, rfl⟩)))

theorem mem_referencedNames_of_parameter {f : Function} {p : Parameter} (hf : f ∈ d.functions)
    (hp : p ∈ f.parameters) : (TypeRef.parse p.type).localName ∈ d.referencedNames := by
  simp only [referencedNames, List.mem_append, List.mem_flatMap, List.mem_map]
  exact .inl (.inl (.inr ⟨f, hf, p, hp, rfl⟩))

theorem mem_referencedNames_of_returnType {f : Function} {type : String} (hf : f ∈ d.functions)
    (htype : f.returnType = some type) : (TypeRef.parse type).localName ∈ d.referencedNames := by
  simp only [referencedNames, List.mem_append, List.mem_filterMap]
  exact .inl (.inr ⟨f, hf, by rw [htype, Option.map_some]⟩)

theorem WellNamed.of_referenced {name : String} (hd : d.WellNamed) (h : name ∈ d.referencedNames) :
    ¬ IsBaseKey name :=
  hd.not_isBaseKey name (List.mem_append_right _ h)

end Csdl.Document

/-- No function goes to a base variant by the name of what it is bound to. -/
theorem Types.not_isBaseKey_ownerKey {binding : Parameter}
    (h : ¬ IsBaseKey (TypeRef.parse binding.type).localName) : ¬ IsBaseKey (ownerKey binding) := by
  rw [ownerKey]
  split
  · rintro ⟨name, heq⟩
    have hlast := congrArg (fun s : String => s.toList.getLast?) heq
    simp only [baseKey, baseEnding, String.toList_append, List.getLast?_append] at hlast
    simp at hlast
  · exact h

namespace Types

variable {ts ts' : Types} {service : Service} {d : Csdl.Document} {h : Hierarchy} {name field : String}

theorem resolve?_isSome_iff {type : String}
    (hts : ts.contains (TypeRef.parse type).localName = true ↔
      (TypeRef.parse type).localName ∈ d.declaredNames) :
    (ts.resolve? type).isSome ↔ d.Represents type := by
  rw [resolve?, Csdl.Document.Represents, ← hts]
  cases Scalar.ofPrimitive? (TypeRef.parse type).qualifiedName with
  | some s => simp
  | none =>
    dsimp only
    split <;> simp_all

theorem memberField?_isSome_iff {m : Member} :
    (ts.memberField? m).isSome ↔ (ts.resolve? m.type).isSome := by
  rw [memberField?, Option.isSome_map]

theorem of_memberField? {m : Member} {p : String × Field} (hp : ts.memberField? m = some p) :
    p.1 = m.name ∧ p.2.isDeclared = true ∧ p.2.kind.ofEntity = true := by
  obtain ⟨type, _, rfl⟩ := Option.map_eq_some_iff.1 hp
  cases hkind : m.kind <;> exact ⟨rfl, by simp [Field.isDeclared], rfl⟩

theorem functionField?_isSome_iff {f : Function} {binding : String} :
    (ts.functionField? f binding).isSome ↔
      (∃ type, f.returnType = some type ∧ (ts.resolve? type).isSome) ∧
        ∀ p ∈ f.parameters, p.name ≠ binding → (ts.resolve? p.type).isSome := by
  have harguments : ((f.parameters.filter (·.name != binding)).mapM ts.argument?).isSome ↔
      ∀ p ∈ f.parameters, p.name ≠ binding → (ts.resolve? p.type).isSome := by
    simp only [mapM_option_isSome_iff, List.mem_filter, bne_iff_ne, and_imp, argument?,
      Option.isSome_map]
  rw [functionField?, ← harguments]
  cases f.returnType with
  | none => simp
  | some type =>
    cases htype : ts.resolve? type with
    | none => simp [htype]
    | some t =>
      cases hmap : (f.parameters.filter (·.name != binding)).mapM ts.argument? with
      | none => simp [htype]
      | some arguments => simp [htype]

theorem of_functionField? {f : Function} {binding : String} {p : String × Field}
    (hp : ts.functionField? f binding = some p) :
    p.1 = f.name ∧ p.2.isDeclared = true ∧ p.2.kind.ofEntity = true := by
  simp only [functionField?, Option.bind_eq_bind, Option.bind_eq_some_iff] at hp
  obtain ⟨_, _, _, _, _, _, hp⟩ := hp
  cases hp
  exact ⟨rfl, rfl, rfl⟩

theorem mem_boundFields {functions : List Function} {p : String × String × Field} :
    p ∈ ts.boundFields functions ↔
      ∃ f ∈ functions, f.isBound = true ∧ ∃ binding, bindingParameter? f = some binding ∧
        ownerKey binding = p.1 ∧ ts.functionField? f binding.name = some p.2 := by
  simp only [boundFields, List.mem_filterMap, List.mem_filter, Option.bind_eq_bind,
    Option.bind_eq_some_iff, and_assoc]
  constructor
  · rintro ⟨f, hf, hbound, binding, hbinding, field, hfield, hp⟩
    cases hp
    exact ⟨f, hf, hbound, binding, hbinding, rfl, hfield⟩
  · rintro ⟨f, hf, hbound, binding, hbinding, howner, hfield⟩
    exact ⟨f, hf, hbound, binding, hbinding, p.2, hfield, by rw [howner]; rfl⟩

theorem mem_ownFields {p : String × Field} :
    p ∈ ts.ownFields d name ↔
      (∃ t ∈ d.structuredTypes, t.name = name ∧ ∃ m ∈ t.members, ts.memberField? m = some p) ∨
      ∃ f ∈ d.functions, f.isBound = true ∧ ∃ binding, bindingParameter? f = some binding ∧
        ownerKey binding = name ∧ ts.functionField? f binding.name = some p := by
  simp only [ownFields, List.mem_append, List.mem_flatMap, List.mem_filter, List.mem_filterMap,
    List.mem_map, beq_iff_eq, mem_boundFields, and_assoc]
  refine or_congr Iff.rfl ⟨?_, ?_⟩
  · rintro ⟨q, ⟨f, hf, hbound, binding, hbinding, howner, hfield⟩, hname, rfl⟩
    exact ⟨f, hf, hbound, binding, hbinding, howner.trans hname, hfield⟩
  · rintro ⟨f, hf, hbound, binding, hbinding, howner, hfield⟩
    exact ⟨(name, p), ⟨f, hf, hbound, binding, hbinding, howner, hfield⟩, rfl, rfl⟩

/-- Own fields are the members and functions that the document lets a type have. -/
theorem exists_mem_ownFields_iff
    (hts : ∀ name ∈ d.referencedNames, ts.contains name = true ↔ name ∈ d.declaredNames) :
    (∃ p ∈ ts.ownFields d name, p.1 ≠ rawValueField) ↔ d.Contributes name := by
  have hmember : ∀ t ∈ d.structuredTypes, ∀ m ∈ t.members,
      (ts.memberField? m).isSome ↔ d.Represents m.type := fun t ht m hm =>
    memberField?_isSome_iff.trans
      (resolve?_isSome_iff (hts _ (Csdl.Document.mem_referencedNames_of_member ht hm)))
  have hfunction : ∀ f ∈ d.functions, ∀ binding, (ts.functionField? f binding).isSome ↔
      (∃ type, f.returnType = some type ∧ d.Represents type) ∧
        ∀ p ∈ f.parameters, p.name ≠ binding → d.Represents p.type := by
    intro f hf binding
    rw [functionField?_isSome_iff]
    refine and_congr (exists_congr fun type => and_congr_right fun htype => ?_)
      (forall₂_congr fun p hp => imp_congr_right fun _ => ?_)
    · exact resolve?_isSome_iff (hts _ (Csdl.Document.mem_referencedNames_of_returnType hf htype))
    · exact resolve?_isSome_iff (hts _ (Csdl.Document.mem_referencedNames_of_parameter hf hp))
  simp only [mem_ownFields, Csdl.Document.Contributes]
  constructor
  · rintro ⟨p, ⟨t, ht, hname, m, hm, hp⟩ | ⟨f, hf, hbound, binding, hbinding, howner, hp⟩, hne⟩
    · rw [(of_memberField? hp).1] at hne
      exact .inl ⟨t, ht, hname, m, hm, hne, (hmember t ht m hm).1 (hp ▸ rfl)⟩
    · rw [(of_functionField? hp).1] at hne
      have hsome : (ts.functionField? f binding.name).isSome = true := hp ▸ rfl
      exact .inr ⟨f, hf, hne, hbound, binding, hbinding, howner, (hfunction f hf _).1 hsome⟩
  · rintro (⟨t, ht, hname, m, hm, hne, htype⟩ | ⟨f, hf, hne, hbound, binding, hbinding, howner, hrep⟩)
    · obtain ⟨p, hp⟩ := Option.isSome_iff_exists.1 ((hmember t ht m hm).2 htype)
      exact ⟨p, .inl ⟨t, ht, hname, m, hm, hp⟩, (of_memberField? hp).1 ▸ hne⟩
    · obtain ⟨p, hp⟩ := Option.isSome_iff_exists.1 ((hfunction f hf _).2 hrep)
      exact ⟨p, .inr ⟨f, hf, hbound, binding, hbinding, howner, hp⟩, (of_functionField? hp).1 ▸ hne⟩

theorem kind_of_mem_ownFields {p : String × Field} (hp : p ∈ ts.ownFields d name) :
    p.2.isDeclared = true ∧ p.2.kind.ofEntity = true := by
  rcases mem_ownFields.1 hp with ⟨_, _, _, m, _, hp⟩ | ⟨f, _, _, binding, _, _, hp⟩
  · exact (of_memberField? hp).2
  · exact (of_functionField? hp).2

/-- The own fields of every type, with its raw value. -/
def ownMap (ts : Types) (d : Csdl.Document) : FieldMap := fun name =>
  (∅ : OrderedMap String Field).insert rawValueField rawValue |>.addNew (ts.ownFields d name)

theorem get?_ownMap (ts : Types) (d : Csdl.Document) (name field : String) :
    (ts.ownMap d name).get? field =
      if field = rawValueField then some rawValue else (ts.ownFields d name).lookup field := by
  rw [ownMap, OrderedMap.get?_addNew, OrderedMap.get?_insert]
  by_cases hfield : field = rawValueField
  · simp [hfield]
  · rw [if_neg hfield, if_neg hfield]
    rfl

variable {f : Field}

theorem isDeclared_iff_of_get?_ownMap (hf : (ts.ownMap d name).get? field = some f) :
    f.isDeclared = true ↔ field ≠ rawValueField := by
  rw [get?_ownMap] at hf
  split at hf
  · rename_i hfield
    cases hf
    simp [hfield, Field.isDeclared, rawValue]
  · rename_i hfield
    obtain ⟨l₁, l₂, hl, _⟩ := List.lookup_eq_some_iff.1 hf
    have hmem : (field, f) ∈ ts.ownFields d name := by
      rw [hl]
      exact List.mem_append_right _ List.mem_cons_self
    simp [hfield, (kind_of_mem_ownFields hmem).1]

theorem ofEntity_of_get?_ownMap (hf : (ts.ownMap d name).get? field = some f) :
    f.kind.ofEntity = true := by
  rw [get?_ownMap] at hf
  split at hf
  · cases hf
    rfl
  · obtain ⟨l₁, l₂, hl, _⟩ := List.lookup_eq_some_iff.1 hf
    have hmem : (field, f) ∈ ts.ownFields d name := by
      rw [hl]
      exact List.mem_append_right _ List.mem_cons_self
    exact (kind_of_mem_ownFields hmem).2

/-- Which of the types that the document refers to are known is all that own fields depend on. -/
theorem ownMap_congr
    (h : ∀ name ∈ d.referencedNames, ts.contains name = true ↔ ts'.contains name = true) :
    ts.ownMap d = ts'.ownMap d := by
  have hresolve : ∀ type, (TypeRef.parse type).localName ∈ d.referencedNames →
      ts.resolve? type = ts'.resolve? type := fun type htype =>
    resolve?_congr (Bool.eq_iff_iff.2 (h _ htype))
  have hmember : ∀ t ∈ d.structuredTypes, ∀ m ∈ t.members,
      ts.memberField? m = ts'.memberField? m := fun t ht m hm =>
    memberField?_congr (hresolve _ (Csdl.Document.mem_referencedNames_of_member ht hm))
  have hbound : ts.boundFields d.functions = ts'.boundFields d.functions := by
    refine boundFields_congr fun f hf binding => functionField?_congr ?_ ?_
    · exact fun type htype =>
        hresolve _ (Csdl.Document.mem_referencedNames_of_returnType hf htype)
    · exact fun p hp => hresolve _ (Csdl.Document.mem_referencedNames_of_parameter hf hp)
  funext name
  rw [ownMap, ownMap, ownFields, ownFields, hbound]
  congr 2
  refine List.flatMap_congr fun t ht => List.filterMap_congr fun m hm => ?_
  exact hmember t (List.mem_filter.1 ht).1 m hm

/-- Fields that are declared come from a type above that contributes. -/
theorem exists_declared_iff
    (hts : ∀ name ∈ d.referencedNames, ts.contains name = true ↔ name ∈ d.declaredNames)
    {R : String → String → Prop} :
    (∃ field f, Inherits R (ts.ownMap d) field name f ∧ f.isDeclared = true) ↔
      ∃ top, ReflTransGen R name top ∧ d.Contributes top := by
  constructor
  · rintro ⟨field, f, hinherits, hdeclared⟩
    obtain ⟨top, hway, hown⟩ := hinherits.exists_reflTransGen
    have hfield := (isDeclared_iff_of_get?_ownMap hown).1 hdeclared
    rw [get?_ownMap, if_neg hfield] at hown
    obtain ⟨l₁, l₂, hl, _⟩ := List.lookup_eq_some_iff.1 hown
    refine ⟨top, hway, (exists_mem_ownFields_iff hts).1 ⟨(field, f), ?_, hfield⟩⟩
    rw [hl]
    exact List.mem_append_right _ List.mem_cons_self
  · rintro ⟨top, hway, hcontributes⟩
    obtain ⟨⟨field, g⟩, hmem, hfield⟩ := (exists_mem_ownFields_iff hts).2 hcontributes
    have hown : ∃ g, (ts.ownMap d top).get? field = some g := by
      rw [get?_ownMap, if_neg hfield]
      refine Option.ne_none_iff_exists'.1 fun hnone => ?_
      exact bne_iff_ne.1 (List.lookup_eq_none_iff.1 hnone _ hmem) rfl
    obtain ⟨g, hg⟩ := hown
    obtain ⟨f, hf⟩ := Inherits.exists_of_reflTransGen hway hg
    obtain ⟨_, _, htop⟩ := hf.exists_reflTransGen
    exact ⟨field, f, hf, (isDeclared_iff_of_get?_ownMap htop).2 hfield⟩

theorem contains_united_of_referenced (ho : h.Orders d.structuredTypes) (hd : d.WellNamed) :
    ∀ name ∈ d.referencedNames, (united service d h).contains name = true ↔
      name ∈ d.declaredNames :=
  fun _ hname => contains_united ho hd (hd.of_referenced hname)

theorem fieldsKey?_united_eq_some_iff (ho : h.Orders d.structuredTypes) (hd : d.WellNamed)
    {other : String} (hname : name ∈ d.typeNames) (hother : ¬ IsBaseKey other) :
    (united service d h).fieldsKey? other = some (h.objectKey name) ↔ other = name := by
  rw [fieldsKey?_united ho hd hother]
  constructor
  · intro heq
    split at heq
    · exact Hierarchy.objectKey_inj hother (hd.of_typeNames hname) (Option.some.inj heq)
    · cases heq
  · rintro rfl
    rw [if_pos hname]

/-- Before empty objects are settled, every structured type has the fields that are handed down to
it. -/
theorem exists_ofDocument_complete (service : Service) (ho : h.Orders d.structuredTypes)
    (hd : d.WellNamed) :
    ∃ F, ofDocument service d h = ((united service d h).setFields F).settleEmpty ∧
      Complete d.typeNames (Extends d.structuredTypes) ((united service d h).ownMap d)
        (F ∘ h.objectKey) := by
  have hkey : ∀ name ∈ d.typeNames, ∀ other, other ∈ d.typeNames ∨
      other ∈ ((united service d h).boundFields d.functions).map Prod.fst →
      ((united service d h).fieldsKey? other = some (h.objectKey name) ↔ other = name) := by
    rintro name hname other (hother | hother)
    · exact fieldsKey?_united_eq_some_iff ho hd hname (hd.of_typeNames hother)
    · obtain ⟨p, hp, rfl⟩ := List.mem_map.1 hother
      obtain ⟨f, hf, _, binding, hbinding, howner, _⟩ := mem_boundFields.1 hp
      have hparameter := List.mem_of_find?_eq_some hbinding
      have hnot := not_isBaseKey_ownerKey
        (hd.of_referenced (Csdl.Document.mem_referencedNames_of_parameter hf hparameter))
      exact fieldsKey?_united_eq_some_iff ho hd hname (howner ▸ hnot)
  obtain ⟨G, hG, hfieldsG⟩ := exists_addFunctions_eq (united service d h) d _ hkey
  rw [setFields_united] at hG
  have hedges : ∀ e ∈ h.edges, e.1 ∈ d.typeNames ∧ e.2 ∈ d.typeNames := fun e he =>
    Csdl.Document.typeNames_of_extends (ho.mem_edges_iff.1 he)
  have hobject : ∀ name ∈ d.typeNames,
      (united service d h).fieldsKey? name = some (h.objectKey name) ∧
        ∃ o, (united service d h).get? (h.objectKey name) = some (.object o) := fun name hname =>
    ⟨(fieldsKey?_united_eq_some_iff ho hd hname (hd.of_typeNames hname)).2 rfl,
      _, get?_united_objectKey (hd.fits ho) hname⟩
  have hinj : ∀ a ∈ d.typeNames, ∀ b ∈ d.typeNames, h.objectKey a = h.objectKey b → a = b :=
    fun a ha b hb => Hierarchy.objectKey_inj (hd.of_typeNames ha) (hd.of_typeNames hb)
  obtain ⟨F, hF, hfieldsF⟩ := exists_foldl_inheritFrom_eq (F := G) ho.pairwise ho.irrefl ho.nodup
    hedges hobject hinj
  refine ⟨F, ?_, ?_⟩
  · rw [← hF, ← hG]
    rfl
  · rw [ho.extends_eq]
    exact hfieldsF.congr_own (fun hmem => (hedges _ hmem).1) hfieldsG

theorem exists_ofDocument_eq (service : Service) (ho : h.Orders d.structuredTypes)
    (hd : d.WellNamed) :
    ∃ F, ofDocument service d h = ((united service d h).setFields F).settleEmpty ∧
      ∀ name ∈ d.typeNames, ∀ field f, (F (h.objectKey name)).get? field = some f ↔
        Inherits (Extends d.structuredTypes) ((united service d h).ownMap d) field name f := by
  obtain ⟨F, hF, hcomplete⟩ := exists_ofDocument_complete service ho hd
  refine ⟨F, hF, fun name hname field f => ?_⟩
  exact hcomplete.get?_eq_some_iff ho
    (fun hext => (Csdl.Document.typeNames_of_extends hext).2) hname

end Types

end ODataGraph
