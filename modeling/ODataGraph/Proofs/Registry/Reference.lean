import ODataGraph.Proofs.Registry.Shape

/-!
What the fields of objects refer to. Every type that they name was known when they were made, and
of the known types only the base variants of unions can go missing.
-/

namespace ODataGraph

open Csdl (StructuredType Member Function Parameter TypeRef Extends)

/-- The keys of the types that a field holds or takes. -/
def Field.references (f : Field) : List String :=
  f.type.key?.toList ++ f.arguments.values.filterMap (·.type.key?)

/-- The keys of the types that the fields of an object and its query options hold or take. -/
def ObjectType.references (o : ObjectType) : List String :=
  o.fields.values.flatMap Field.references ++ o.arguments.values.filterMap (·.type.key?)

theorem OrderedMap.mem_values_iff {α β : Type} [DecidableEq α] {m : OrderedMap α β} {v : β} :
    v ∈ m.values ↔ ∃ k, m.get? k = some v := by
  simp only [values, List.mem_map, Prod.exists, exists_eq_right, mem_entries_iff]

theorem Field.mem_references {f : Field} {key : String} :
    key ∈ f.references ↔
      f.type.key? = some key ∨ ∃ a ∈ f.arguments.values, a.type.key? = some key := by
  rw [references, List.mem_append, Option.mem_toList, List.mem_filterMap]

theorem ObjectType.mem_references {o : ObjectType} {key : String} :
    key ∈ o.references ↔ (∃ field f, o.fields.get? field = some f ∧ key ∈ f.references) ∨
      ∃ a ∈ o.arguments.values, a.type.key? = some key := by
  simp only [references, List.mem_append, List.mem_flatMap, List.mem_filterMap,
    OrderedMap.mem_values_iff]
  refine or_congr_left ⟨?_, ?_⟩
  · rintro ⟨f, ⟨field, hf⟩, hkey⟩
    exact ⟨field, f, hf, hkey⟩
  · rintro ⟨field, f, hf, hkey⟩
    exact ⟨f, ⟨field, hf⟩, hkey⟩

namespace Types

variable {ts : Types} {service : Service} {d : Csdl.Document} {h : Hierarchy} {F : FieldMap}
  {Q : String → Prop} {key name type : String} {t : TypeReference} {o : ObjectType}

theorem key?_of_resolve? (ht : ts.resolve? type = some t) (hkey : t.key? = some key) :
    key = (TypeRef.parse type).localName ∧ ts.contains key = true := by
  rw [resolve?_eq, Option.map_eq_some_iff] at ht
  obtain ⟨element, helement, rfl⟩ := ht
  have hkey : element.key? = some key := by
    split at hkey <;> exact hkey
  rcases element?_eq_some_iff.1 helement with ⟨s, _, rfl⟩ | ⟨_, hcontains, rfl⟩
  · have hnone : (TypeReference.scalar s).key? = none := rfl
    rw [hnone] at hkey
    cases hkey
  · have hnamed : ∀ k, (TypeReference.named k).key? = some k := fun _ => rfl
    rw [hnamed, Option.some.injEq] at hkey
    exact ⟨hkey.symm, hkey ▸ hcontains⟩

/-- A type that the document refers to and that is known. -/
def Known (ts : Types) (d : Csdl.Document) (key : String) : Prop :=
  ts.contains key = true ∧ key ∈ d.referencedNames

theorem known_of_resolve? (ht : ts.resolve? type = some t) (hkey : t.key? = some key)
    (htype : (TypeRef.parse type).localName ∈ d.referencedNames) : ts.Known d key := by
  obtain ⟨rfl, hcontains⟩ := key?_of_resolve? ht hkey
  exact ⟨hcontains, htype⟩

theorem known_of_memberField? {s : StructuredType} {m : Member} {p : String × Field}
    (hs : s ∈ d.structuredTypes) (hm : m ∈ s.members) (hp : ts.memberField? m = some p)
    (hkey : key ∈ p.2.references) : ts.Known d key := by
  obtain ⟨t, ht, rfl⟩ := Option.map_eq_some_iff.1 hp
  rcases Field.mem_references.1 hkey with hkey | ⟨a, ha, _⟩
  · exact known_of_resolve? ht hkey (Csdl.Document.mem_referencedNames_of_member hs hm)
  · cases ha

theorem known_of_functionField? {f : Function} {binding : String} {p : String × Field}
    (hf : f ∈ d.functions) (hp : ts.functionField? f binding = some p)
    (hkey : key ∈ p.2.references) : ts.Known d key := by
  simp only [functionField?, Option.bind_eq_bind, Option.bind_eq_some_iff] at hp
  obtain ⟨type, htype, t, ht, arguments, harguments, hp⟩ := hp
  cases hp
  rcases Field.mem_references.1 hkey with hkey | ⟨a, ha, hkey⟩
  · exact known_of_resolve? ht hkey (Csdl.Document.mem_referencedNames_of_returnType hf htype)
  · obtain ⟨name, ha⟩ := OrderedMap.mem_values_iff.1 ha
    obtain ⟨q, hq, hargument⟩ := exists_of_mem_mapM harguments (OrderedMap.mem_of_get?_ofList ha)
    obtain ⟨t, ht, heq⟩ := Option.map_eq_some_iff.1 hargument
    cases heq
    refine known_of_resolve? (t := t) ht ?_
      (Csdl.Document.mem_referencedNames_of_parameter hf (List.mem_filter.1 hq).1)
    dsimp only at hkey
    split at hkey <;> exact hkey

end Types

/-- All fields of objects have a property. -/
def FieldMap.All (F : FieldMap) (P : Field → Prop) : Prop :=
  ∀ key field f, (F key).get? field = some f → P f

/-- All fields of objects refer to such keys. -/
def FieldMap.Within (F : FieldMap) (Q : String → Prop) : Prop :=
  ∀ key field f, (F key).get? field = some f → ∀ ref ∈ f.references, Q ref

def ObjectType.addPlaceholder (o : ObjectType) : ObjectType :=
  { o with fields := o.fields.insert placeholderField Types.placeholder }

namespace Types

variable {ts : Types} {service : Service} {d : Csdl.Document} {h : Hierarchy} {F : FieldMap}
  {P : Field → Prop} {Q : String → Prop}

theorem all_place {key : String} {fields : List (String × Field)} (hF : F.All P)
    (hfields : ∀ p ∈ fields, P p.2) : (ts.place F key fields).All P := by
  intro k field f hf
  by_cases hkey : ts.fieldsKey? key = some k
  · rw [place_self hkey, OrderedMap.get?_addNew, Option.or_eq_some_iff] at hf
    rcases hf with hf | ⟨_, hf⟩
    · exact hF k field f hf
    · obtain ⟨before, after, hl, _⟩ := List.lookup_eq_some_iff.1 hf
      exact hfields (field, f) (hl ▸ List.mem_append_right _ List.mem_cons_self)
  · rw [place_of_ne hkey] at hf
    exact hF k field f hf

theorem all_foldl_place {l : List (String × List (String × Field))} (hF : F.All P)
    (hl : ∀ e ∈ l, ∀ p ∈ e.2, P p.2) : (l.foldl (fun F e => ts.place F e.1 e.2) F).All P := by
  induction l generalizing F with
  | nil => exact hF
  | cons e rest ih =>
    exact ih (all_place hF (hl e List.mem_cons_self))
      fun e he => hl e (List.mem_cons_of_mem _ he)

theorem exists_foldl_addMembers_all {l : List StructuredType} (hF : F.All P)
    (hl : ∀ t ∈ l, ∀ m ∈ t.members, ∀ p, ts.memberField? m = some p → P p.2) :
    ∃ G, l.foldl addMembers (ts.setFields F) = ts.setFields G ∧ G.All P := by
  refine ⟨_, foldl_addMembers ts l F, all_foldl_place hF fun e he p hp => ?_⟩
  obtain ⟨t, ht, rfl⟩ := List.mem_map.1 he
  obtain ⟨m, hm, hfield⟩ := List.mem_filterMap.1 hp
  exact hl t ht m hm p hfield

theorem exists_addFunctions_all {l : List Function} (hF : F.All P)
    (hl : ∀ f ∈ l, ∀ binding p, ts.functionField? f binding = some p → P p.2) :
    ∃ G, (ts.setFields F).addFunctions l = ts.setFields G ∧ G.All P := by
  simp only [addFunctions, boundFields_setFields, foldl_addFields]
  refine ⟨_, rfl, all_foldl_place hF fun e he p hp => ?_⟩
  obtain ⟨owner, _, rfl⟩ := List.mem_map.1 he
  obtain ⟨q, hq, rfl⟩ := List.mem_map.1 hp
  obtain ⟨f, hf, _, binding, _, _, hfield⟩ := mem_boundFields.1 (List.mem_filter.1 hq).1
  exact hl f hf _ _ hfield

theorem exists_inheritFrom_eq (hF : F.All P) (edge : String × String) :
    ∃ G, Hierarchy.inheritFrom (ts.setFields F) edge = ts.setFields G ∧ G.All P := by
  rw [Hierarchy.inheritFrom]
  split
  · rename_i base hbase
    refine ⟨_, addFields_setFields ts F edge.1 base.fields.entries, all_place hF ?_⟩
    rintro ⟨field, f⟩ hmem
    simp only [object?, Option.bind_eq_bind, Option.bind_eq_some_iff, get?_setFields,
      Option.map_eq_some_iff] at hbase
    obtain ⟨key, _, t, ⟨t', _, rfl⟩, hobject⟩ := hbase
    have hfields : base.fields = F key := by
      cases t' <;> cases hobject
      rfl
    rw [hfields] at hmem
    exact hF key field f (OrderedMap.mem_entries_iff.1 hmem)
  · exact ⟨F, rfl, hF⟩

theorem exists_foldl_inheritFrom_all (hF : F.All P) (edges : List (String × String)) :
    ∃ G, edges.foldl Hierarchy.inheritFrom (ts.setFields F) = ts.setFields G ∧ G.All P := by
  induction edges generalizing F with
  | nil => exact ⟨F, rfl, hF⟩
  | cons edge rest ih =>
    obtain ⟨G, hG, hall⟩ := exists_inheritFrom_eq hF edge
    rw [List.foldl_cons, hG]
    exact ih hall

/-- Fields are made for raw values, members and functions, and every other one is inherited. -/
theorem exists_ofDocument_all (service : Service) (d : Csdl.Document) (h : Hierarchy)
    (hraw : P rawValue)
    (hmember : ∀ t ∈ d.structuredTypes, ∀ m ∈ t.members, ∀ p,
      (united service d h).memberField? m = some p → P p.2)
    (hfunction : ∀ f ∈ d.functions, ∀ binding p,
      (united service d h).functionField? f binding = some p → P p.2) :
    ∃ F, ofDocument service d h = ((united service d h).setFields F).settleEmpty ∧ F.All P := by
  have hplain : FieldMap.All
      (fun _ => (∅ : OrderedMap String Field).insert rawValueField rawValue) P := by
    intro key field f hf
    rw [OrderedMap.get?_insert] at hf
    split at hf
    · cases hf
      exact hraw
    · cases hf
  obtain ⟨F, hF, hmembers⟩ := exists_foldl_addMembers_all hplain hmember
  obtain ⟨G, hG, hfunctions⟩ := exists_addFunctions_all hmembers hfunction
  obtain ⟨H, hH, hall⟩ := exists_foldl_inheritFrom_all hfunctions h.edges
  refine ⟨H, ?_, hall⟩
  rw [← hH, ← hG, ← hF, setFields_united]
  rfl

/-- All fields that are made for a document refer to types that are known before. -/
theorem exists_ofDocument_within (service : Service) (d : Csdl.Document) (h : Hierarchy) :
    ∃ F, ofDocument service d h = ((united service d h).setFields F).settleEmpty ∧
      F.Within ((united service d h).Known d) :=
  exists_ofDocument_all service d h nofun
    (fun _ ht _ hm _ hp _ => known_of_memberField? ht hm hp)
    fun _ hf _ _ hp _ => known_of_functionField? hf hp

variable {key name : String}

/-- What is left when a base variant is left out. -/
def without (ts : Types) (key : String) : Types := (ts.erase key).map fun _ t => leaveUnion key t

theorem get?_without (ts : Types) (key k : String) :
    (ts.without key).get? k = if k = key then none else (ts.get? k).map (leaveUnion key) := by
  rw [without, OrderedMap.get?_map, OrderedMap.get?_erase]
  split <;> rfl

/-- Settling an object gives it a placeholder or leaves it out; it comes back in the place of a
union that it was the only member of. -/
theorem cases_settle (ts : Types) (key : String) :
    ts.settle key = ts.addPlaceholder key ∨
    ∃ name o u, key = baseKey name ∧ (ts.addPlaceholder key).get? key = some (.object o) ∧
      (ts.addPlaceholder key).get? name = some (.union u) ∧
      (u.members ≠ [key] ∧ ts.settle key = (ts.addPlaceholder key).without key ∨
        u.members = [key] ∧ ts.settle key =
          ((ts.addPlaceholder key).without key).insert name (.object { o with name := u.name })) := by
  rw [settle]
  dsimp only
  split
  · rename_i o name u ho hname hu
    have hu : (ts.addPlaceholder key).get? name = some (.union u) := by
      simp only [unionOfBaseKey?, hname, Option.bind_eq_bind, Option.bind_some] at hu
      split at hu
      · cases hu
        assumption
      · cases hu
    refine .inr ⟨name, o, u, dropEnd?_baseEnding.1 hname, ho, hu, ?_⟩
    split
    · rename_i hmembers
      exact .inr ⟨hmembers, rfl⟩
    · rename_i hmembers
      exact .inl ⟨hmembers, rfl⟩
  · exact .inl rfl

theorem get?_addPlaceholder_union {u : UnionType} {k : String} :
    (ts.addPlaceholder key).get? k = some (.union u) ↔ ts.get? k = some (.union u) := by
  rw [get?_addPlaceholder]
  split
  · cases ts.get? k with
    | none => simp
    | some t => cases t <;> simp [Descriptor.addPlaceholder]
  · rfl

theorem object_of_addPlaceholder {k : String} {o : ObjectType}
    (ho : (ts.addPlaceholder key).get? k = some (.object o)) :
    k ≠ key ∧ ts.get? k = some (.object o) ∨
    k = key ∧ ∃ o₀, ts.get? key = some (.object o₀) ∧ o = o₀.addPlaceholder := by
  rw [get?_addPlaceholder] at ho
  split at ho
  · rename_i hk
    obtain ⟨t, ht, hobject⟩ := Option.map_eq_some_iff.1 ho
    cases t <;> cases hobject
    exact .inr ⟨hk, _, hk ▸ ht, rfl⟩
  · rename_i hk
    exact .inl ⟨hk, ho⟩

theorem get?_without_object {k : String} {o : ObjectType} :
    (ts.without key).get? k = some (.object o) ↔ k ≠ key ∧ ts.get? k = some (.object o) := by
  rw [get?_without]
  split
  · simp [*]
  · cases ts.get? k with
    | none => simp
    | some t => cases t <;> simp [leaveUnion, *]

theorem exists_union_of_without {u : UnionType} {k : String}
    (hu : (ts.without key).get? k = some (.union u)) :
    ∃ u₀, ts.get? k = some (.union u₀) ∧ u = { u₀ with members := u₀.members.erase key } := by
  rw [get?_without] at hu
  split at hu
  · cases hu
  · obtain ⟨t, ht, hunion⟩ := Option.map_eq_some_iff.1 hu
    cases t <;> cases hunion
    exact ⟨_, ht, rfl⟩

/-- An object that is there once another one is settled was there before, or it is that one with
its placeholder, under its key or in the place and with the name of a union. -/
theorem object_of_settle {k : String} {o : ObjectType}
    (ho : (ts.settle key).get? k = some (.object o)) :
    k ≠ key ∧ ts.get? k = some (.object o) ∨
    ∃ o₀ name, ts.get? key = some (.object o₀) ∧ o = { o₀.addPlaceholder with name } ∧
      (k = key ∧ name = o₀.name ∨ ∃ u, ts.get? k = some (.union u) ∧ name = u.name) := by
  have hothers : ((ts.addPlaceholder key).without key).get? k = some (.object o) →
      k ≠ key ∧ ts.get? k = some (.object o) := by
    intro ho
    obtain ⟨hk, ho⟩ := get?_without_object.1 ho
    exact (object_of_addPlaceholder ho).resolve_right fun ⟨heq, _⟩ => hk heq
  rcases cases_settle ts key with heq | ⟨name, o', u, _, ho', hu, ⟨_, heq⟩ | ⟨_, heq⟩⟩
  · rw [heq] at ho
    refine (object_of_addPlaceholder ho).imp_right ?_
    rintro ⟨hk, o₀, ho₀, rfl⟩
    exact ⟨o₀, o₀.name, ho₀, rfl, .inl ⟨hk, rfl⟩⟩
  · exact .inl (hothers (heq ▸ ho))
  · rw [heq, OrderedMap.get?_insert] at ho
    split at ho
    · rename_i hk
      cases ho
      obtain ⟨_, o₀, ho₀, rfl⟩ := (object_of_addPlaceholder ho').resolve_left fun ⟨h, _⟩ => h rfl
      exact .inr ⟨o₀, u.name, ho₀, rfl, .inr ⟨u, hk ▸ get?_addPlaceholder_union.1 hu, rfl⟩⟩
    · exact .inl (hothers ho)

/-- Unions only lose members, and keep their names. -/
theorem union_of_settle {k : String} {u : UnionType}
    (hu : (ts.settle key).get? k = some (.union u)) :
    ∃ u₀, ts.get? k = some (.union u₀) ∧ u.name = u₀.name := by
  have hothers : ((ts.addPlaceholder key).without key).get? k = some (.union u) →
      ∃ u₀, ts.get? k = some (.union u₀) ∧ u.name = u₀.name := by
    intro hu
    obtain ⟨u₀, hu₀, rfl⟩ := exists_union_of_without hu
    exact ⟨u₀, get?_addPlaceholder_union.1 hu₀, rfl⟩
  rcases cases_settle ts key with heq | ⟨_, _, _, _, _, _, ⟨_, heq⟩ | ⟨_, heq⟩⟩
  · exact ⟨u, get?_addPlaceholder_union.1 (heq ▸ hu), rfl⟩
  · exact hothers (heq ▸ hu)
  · rw [heq, OrderedMap.get?_insert] at hu
    split at hu
    · cases hu
    · exact hothers hu

theorem enum_of_settle {k : String} {e : EnumType}
    (he : (ts.settle key).get? k = some (.enum e)) : ts.get? k = some (.enum e) := by
  have hplaceholder : (ts.addPlaceholder key).get? k = some (.enum e) →
      ts.get? k = some (.enum e) := by
    intro he
    rw [get?_addPlaceholder] at he
    split at he
    · obtain ⟨t, ht, henum⟩ := Option.map_eq_some_iff.1 he
      cases t <;> cases henum
      exact ht
    · exact he
  have hothers : ((ts.addPlaceholder key).without key).get? k = some (.enum e) →
      ts.get? k = some (.enum e) := by
    intro he
    rw [get?_without] at he
    split at he
    · cases he
    · obtain ⟨t, ht, henum⟩ := Option.map_eq_some_iff.1 he
      cases t <;> cases henum
      exact hplaceholder ht
  rcases cases_settle ts key with heq | ⟨_, _, _, _, _, _, ⟨_, heq⟩ | ⟨_, heq⟩⟩
  · exact hplaceholder (heq ▸ he)
  · exact hothers (heq ▸ he)
  · rw [heq, OrderedMap.get?_insert] at he
    split at he
    · cases he
    · exact hothers he

/-- What is left out is the base variant of a union. -/
theorem mem_keys_settle {k : String} (hk : k ∈ ts.keys) :
    k ∈ (ts.settle key).keys ∨ ∃ name u, k = baseKey name ∧ ts.get? name = some (.union u) := by
  have hplaceholder : (ts.addPlaceholder key).keys = ts.keys := OrderedMap.keys_map _ _
  have hothers : k ≠ key → k ∈ ((ts.addPlaceholder key).without key).keys := by
    intro hne
    obtain ⟨t, ht⟩ := OrderedMap.mem_keys_iff.1 (hplaceholder ▸ hk)
    refine OrderedMap.mem_keys_iff.2 ⟨leaveUnion key t, ?_⟩
    rw [get?_without, if_neg hne, ht, Option.map_some]
  rcases cases_settle ts key with heq | ⟨name, o, u, hkey, _, hu, hrest⟩
  · rw [heq, hplaceholder]
    exact .inl hk
  · by_cases hne : k = key
    · exact .inr ⟨name, u, hne.trans hkey, get?_addPlaceholder_union.1 hu⟩
    · rcases hrest with ⟨_, heq⟩ | ⟨_, heq⟩
      · exact .inl (heq ▸ hothers hne)
      · rw [heq, OrderedMap.keys_insert]
        split
        · exact .inl (hothers hne)
        · exact .inl (List.mem_append_left _ (hothers hne))

/-- Unions stand for types that others extend, and objects refer to such types as are there or are
base variants. -/
structure Refers (ts : Types) (h : Hierarchy) (known : String → Prop) : Prop where
  isBase : ∀ {key u}, ts.get? key = some (.union u) → h.isBase key = true
  kept : ∀ {key}, known key → key ∈ ts.keys ∨ h.IsVariant key
  references : ∀ {key o}, ts.get? key = some (.object o) → ∀ ref ∈ o.references, known ref

namespace Refers

theorem settle (hts : ts.Refers h Q) (key : String) : (ts.settle key).Refers h Q where
  isBase {k u} hu := by
    obtain ⟨u₀, hu₀, _⟩ := union_of_settle hu
    exact hts.isBase hu₀
  kept {k} hk := by
    rcases hts.kept hk with hmem | hvariant
    · refine (mem_keys_settle hmem).imp_right ?_
      rintro ⟨name, u, rfl, hu⟩
      exact ⟨name, hts.isBase hu, rfl⟩
    · exact .inr hvariant
  references {k o} ho ref href := by
    rcases object_of_settle ho with ⟨_, ho⟩ | ⟨o₀, _, ho₀, rfl, _⟩
    · exact hts.references ho ref href
    · -- a placeholder refers to nothing
      refine hts.references ho₀ ref (ObjectType.mem_references.2 ?_)
      refine (ObjectType.mem_references.1 href).imp_left ?_
      rintro ⟨field, f, hf, href⟩
      rw [ObjectType.addPlaceholder, OrderedMap.get?_insert] at hf
      split at hf
      · cases hf
        cases href
      · exact ⟨field, f, hf, href⟩

theorem foldl_settle (hts : ts.Refers h Q) (keys : List String) :
    (keys.foldl Types.settle ts).Refers h Q := by
  induction keys generalizing ts with
  | nil => exact hts
  | cons key rest ih => exact ih (hts.settle key)

end Refers

/-- The types of a document refer to such as are there or are base variants. -/
theorem refers_ofDocument (service : Service) (d : Csdl.Document) (h : Hierarchy) :
    (ofDocument service d h).Refers h ((united service d h).Known d) := by
  obtain ⟨F, hF, hwithin⟩ := exists_ofDocument_within service d h
  rw [hF]
  refine Refers.foldl_settle ⟨fun {key u} hu => ?_, fun {key} hkey => .inl ?_, ?_⟩ _
  · rw [get?_setFields, Option.map_eq_some_iff] at hu
    obtain ⟨t, ht, hunion⟩ := hu
    cases t <;> cases hunion
    exact plain_of_get?_united ht
  · rw [keys_setFields]
    exact OrderedMap.contains_iff.1 hkey.1
  · intro key o ho ref href
    rw [get?_setFields, Option.map_eq_some_iff] at ho
    obtain ⟨t, ht, hobject⟩ := ho
    cases t with
    | object o' =>
      cases hobject
      rcases ObjectType.mem_references.1 href with ⟨field, f, hf, href⟩ | ⟨a, ha, _⟩
      · exact hwithin key field f hf ref href
      · rw [(plain_of_get?_united ht).2] at ha
        cases ha
    | enum e => cases hobject
    | union u => cases hobject

end Types

end ODataGraph
