import ODataGraph.Proofs.Registry.Reference
import ODataGraph.Proofs.Registry.RootField

/-!
Which registries are closed, so that every type that is named in them is there.
-/

namespace ODataGraph

open Csdl (StructuredType Extends)
open Relation (ReflTransGen TransGen)

theorem Capabilities.key?_of_mem_arguments {cs : Capabilities} {a : Argument}
    (ha : a ∈ cs.arguments.values) : a.type.key? = none := by
  obtain ⟨name, ha⟩ := OrderedMap.mem_values_iff.1 ha
  obtain ⟨c, hoption⟩ := exists_option_of_get? ha
  simp only [options, List.mem_cons, List.not_mem_nil, or_false, Prod.mk.injEq] at hoption
  rcases hoption with h | h | h | h | h | h <;> (obtain ⟨_, _, rfl⟩ := h; rfl)

theorem Field.references_annotate {f : Field} {cs : Capabilities} {ref : String}
    (href : ref ∈ (f.annotate cs).references) : ref ∈ f.references := by
  rw [annotate] at href
  dsimp only at href
  split at href
  · refine mem_references.2 ((mem_references.1 href).imp_right ?_)
    rintro ⟨a, ha, hkey⟩
    obtain ⟨name, ha⟩ := OrderedMap.mem_values_iff.1 ha
    rcases OrderedMap.mem_of_get?_foldl_insert ha with hmem | hget
    · have hvalue := OrderedMap.mem_values_of_get? (OrderedMap.mem_entries_iff.1 hmem)
      rw [Capabilities.key?_of_mem_arguments hvalue] at hkey
      cases hkey
    · exact ⟨a, OrderedMap.mem_values_of_get? hget, hkey⟩
  · exact href

/-- What an annotated field of an object refers to, it referred to before. -/
theorem ObjectType.exists_references_annotate {o : ObjectType} {cs : Capabilities}
    {properties : OrderedMap String (List Csdl.AppliedTerm)} {field : String} {f : Field}
    {ref : String} (hf : (o.annotate cs properties).fields.get? field = some f)
    (href : ref ∈ f.references) : ∃ g, o.fields.get? field = some g ∧ ref ∈ g.references := by
  simp only [annotate] at hf
  generalize properties.entries = entries at hf
  induction entries generalizing o with
  | nil => exact ⟨f, hf, href⟩
  | cons entry rest ih =>
    obtain ⟨name, annotations⟩ := entry
    rw [List.foldl_cons] at hf
    by_cases hname : name.isEmpty = true
    · rw [if_pos hname] at hf
      exact ih hf
    · rw [if_neg hname] at hf
      obtain ⟨g, hg, href⟩ := ih (o := { o with
        fields := o.fields.modify name (·.annotate (.ofAnnotations annotations)) }) hf
      rw [OrderedMap.get?_modify] at hg
      split at hg
      · obtain ⟨f₀, hf₀, rfl⟩ := Option.map_eq_some_iff.1 hg
        exact ⟨f₀, hf₀, Field.references_annotate href⟩
      · exact ⟨g, hg, href⟩

/-- Annotations name no types. -/
theorem ObjectType.references_annotate {o : ObjectType} {cs : Capabilities}
    {properties : OrderedMap String (List Csdl.AppliedTerm)} {ref : String}
    (href : ref ∈ (o.annotate cs properties).references) : ref ∈ o.references := by
  rcases mem_references.1 href with ⟨field, f, hf, href⟩ | ⟨a, ha, hkey⟩
  · obtain ⟨g, hg, href⟩ := exists_references_annotate hf href
    exact mem_references.2 (.inl ⟨field, g, hg, href⟩)
  · rw [annotate] at ha
    rw [Capabilities.key?_of_mem_arguments ha] at hkey
    cases hkey

/-- The fields of the query root name registered types only. -/
theorem Roots.mem_keys_of_references {d : Csdl.Document} {ts : Types} {field : String} {f : Field}
    (hf : (ofContainer d (ts.map (Descriptor.annotate d))).fields.get? field = some f) {ref : String}
    (href : ref ∈ f.references) : ref ∈ (ts.map (Descriptor.annotate d)).keys := by
  revert ref
  apply all_ofContainer (P := fun f => ∀ ref ∈ f.references, ref ∈ OrderedMap.keys _) ?_ ?_ hf
  · intro key hkey ref href
    rcases Field.mem_references.1 href with heq | ⟨a, ha, _⟩
    · cases heq
      exact hkey
    · cases ha
  · intro key hkey ref href
    rcases Field.mem_references.1 href with heq | ⟨a, ha, hnone⟩
    · cases heq
      exact hkey
    · obtain ⟨cs, hcs⟩ := exists_listArguments d ts key
      rw [hcs] at ha
      rw [Capabilities.key?_of_mem_arguments ha] at hnone
      cases hnone

namespace Types

variable {service : Service} {d : Csdl.Document} {h : Hierarchy} {R : String → String → Prop}
  {ts : Types} {F : FieldMap} {key : String}

/-- Every union has an object among its members that is no base variant, and only objects. -/
structure Unions (ts : Types) (h : Hierarchy) : Prop where
  isBase : ∀ {key u}, ts.get? key = some (.union u) → h.isBase key = true
  nodup : ∀ {key u}, ts.get? key = some (.union u) → u.members.Nodup
  stays : ∀ {key u}, ts.get? key = some (.union u) → ∃ m ∈ u.members, ¬ h.IsVariant m
  objects : ∀ {key u}, ts.get? key = some (.union u) →
    ∀ m ∈ u.members, ∃ o, ts.get? m = some (.object o)

namespace Unions

theorem exists_object_addPlaceholder {k : String} (h : ∃ o, ts.get? k = some (.object o)) :
    ∃ o, (ts.addPlaceholder key).get? k = some (.object o) := by
  obtain ⟨o, ho⟩ := h
  rw [get?_addPlaceholder, ho]
  split
  · exact ⟨_, rfl⟩
  · exact ⟨o, rfl⟩

theorem addPlaceholder (hts : ts.Unions h) (key : String) : (ts.addPlaceholder key).Unions h where
  isBase hu := hts.isBase (get?_addPlaceholder_union.1 hu)
  nodup hu := hts.nodup (get?_addPlaceholder_union.1 hu)
  stays hu := hts.stays (get?_addPlaceholder_union.1 hu)
  objects hu m hm :=
    exists_object_addPlaceholder (hts.objects (get?_addPlaceholder_union.1 hu) m hm)

theorem without (hts : ts.Unions h) (hkey : h.IsVariant key) : (ts.without key).Unions h where
  isBase hu := by
    obtain ⟨_, hu₀, rfl⟩ := exists_union_of_without hu
    exact hts.isBase hu₀
  nodup hu := by
    obtain ⟨_, hu₀, rfl⟩ := exists_union_of_without hu
    exact (hts.nodup hu₀).erase key
  stays hu := by
    obtain ⟨_, hu₀, rfl⟩ := exists_union_of_without hu
    obtain ⟨m, hm, hnot⟩ := hts.stays hu₀
    have hne : m ≠ key := fun h => hnot (h ▸ hkey)
    exact ⟨m, (List.mem_erase_of_ne hne).2 hm, hnot⟩
  objects hu m hm := by
    obtain ⟨_, hu₀, rfl⟩ := exists_union_of_without hu
    obtain ⟨hne, hm⟩ := (hts.nodup hu₀).mem_erase_iff.1 hm
    obtain ⟨o, ho⟩ := hts.objects hu₀ m hm
    exact ⟨o, get?_without_object.2 ⟨hne, ho⟩⟩

/-- No union is given up: one member is no base variant, so that it stays. -/
theorem settle (hts : ts.Unions h) (key : String) : (ts.settle key).Unions h := by
  have hplaceholder := hts.addPlaceholder key
  rcases cases_settle ts key with heq | ⟨name, o, u, rfl, _, hu, ⟨_, heq⟩ | ⟨hmembers, _⟩⟩
  · exact heq ▸ hplaceholder
  · exact heq ▸ hplaceholder.without ⟨name, hplaceholder.isBase hu, rfl⟩
  · -- the only member would be a base variant
    obtain ⟨m, hm, hnot⟩ := hplaceholder.stays hu
    rw [hmembers, List.mem_singleton] at hm
    exact absurd ⟨name, hplaceholder.isBase hu, hm⟩ hnot

theorem foldl_settle (hts : ts.Unions h) (keys : List String) :
    (keys.foldl Types.settle ts).Unions h := by
  induction keys generalizing ts with
  | nil => exact hts
  | cons key rest ih => exact ih (hts.settle key)

end Unions

theorem unions_placed (hf : h.Fits R d) : ((united service d h).setFields F).Unions h := by
  have hunion : ∀ {key u}, ((united service d h).setFields F).get? key = some (.union u) →
      h.isBase key = true ∧ u.members = h.unionMembers key := by
    intro key u hu
    rw [get?_setFields, Option.map_eq_some_iff] at hu
    obtain ⟨t, ht, hunion⟩ := hu
    rcases cases_get?_united hf ht with ⟨e, rfl⟩ | ⟨_, _, _, rfl⟩ | ⟨hbase, rfl⟩
    · cases hunion
    · cases hunion
    · cases hunion
      exact ⟨hbase, rfl⟩
  have hnames : ∀ name base, R name base → ¬ h.IsVariant name := fun name _ hext =>
    hf.not_isVariant name (hf.declared hext).1
  refine ⟨fun hu => (hunion hu).1, fun hu => ?_, fun hu => ?_, fun {key u} hu m hm => ?_⟩
  · obtain ⟨hbase, heq⟩ := hunion hu
    exact heq ▸ (hf.sorts.members_unionMembers hnames hbase).1
  · obtain ⟨hbase, heq⟩ := hunion hu
    obtain ⟨m, hm, _, hext⟩ := (hf.sorts.members_unionMembers hnames hbase).2
    exact ⟨m, heq ▸ hm, hnames m _ hext⟩
  · obtain ⟨hbase, heq⟩ := hunion hu
    obtain ⟨below, hmembers, _, hbelow⟩ := Hierarchy.unionMembers_eq hf.sorts hnames key
    have hobject : ∃ name ∈ d.typeNames, m = h.objectKey name := by
      rw [heq, hmembers, List.mem_append, List.mem_map, List.mem_singleton] at hm
      rcases hm with ⟨y, hy, rfl⟩ | rfl
      · obtain ⟨_, hext, _⟩ := TransGen.head'_iff.1 ((hbelow y).1 hy)
        exact ⟨y, (hf.declared hext).1, rfl⟩
      · obtain ⟨_, hext⟩ := hf.sorts.isBase_iff.1 hbase
        exact ⟨key, (hf.declared hext).2, by rw [Hierarchy.objectKey, if_pos hbase]⟩
    obtain ⟨name, hname, rfl⟩ := hobject
    rw [get?_setFields, get?_united_objectKey hf hname]
    exact ⟨_, rfl⟩

end Types

/-- The key of the base variant of a declared type that another one extends. -/
def Csdl.Document.IsVariant (d : Csdl.Document) (key : String) : Prop :=
  ∃ name base, Extends d.structuredTypes name base ∧ key = baseKey base

namespace Hierarchy

variable {types : List StructuredType} {d : Csdl.Document} {h : Hierarchy}

theorem extends_of_mem_bases {name base : String} (h : (name, base) ∈ (bases types).entries) :
    Extends types name base := by
  have hmem := OrderedMap.mem_of_get?_ofList (OrderedMap.mem_entries_iff.1 h)
  simp only [List.mem_filterMap, Option.map_eq_some_iff, Option.filter_eq_some_iff,
    List.contains_iff_mem, Prod.mk.injEq] at hmem
  obtain ⟨t, ht, _, ⟨hbase, hdeclared⟩, rfl, rfl⟩ := hmem
  exact ⟨t, ht, rfl, hbase, hdeclared⟩

theorem IsVariant.of_ofTypes (hh : ofTypes d.structuredTypes = .ok h) {key : String}
    (hkey : h.IsVariant key) : d.IsVariant key := by
  obtain ⟨base, hbase, heq⟩ := hkey
  obtain ⟨name, hmem⟩ := (sorts_of_ofTypes hh).isBase_iff.1 hbase
  exact ⟨name, base, extends_of_mem_bases hmem, heq⟩

theorem fits_of_ofTypes (hh : ofTypes d.structuredTypes = .ok h)
    (hd : ∀ name ∈ d.typeNames, ¬ d.IsVariant name) :
    h.Fits (fun name base => (name, base) ∈ (bases d.structuredTypes).entries) d where
  sorts := sorts_of_ofTypes hh
  declared hmem := Csdl.Document.typeNames_of_extends (extends_of_mem_bases hmem)
  not_isVariant name hname hv := hd name hname (hv.of_ofTypes hh)

end Hierarchy

/-- The augmentation only decorates: it leaves the shape of types as it is, and no object gets to
name other types than before. -/
structure Augmentation.KeepsReferences (a : Augmentation) : Prop where
  shape : a.KeepsShape
  references : ∀ o o', a (.object o) = .object o' → ∀ ref ∈ o'.references, ref ∈ o.references

/-- Every union has members, which are registered objects, and all types that are named in fields
and arguments are registered. -/
structure Registry.Closed (r : Registry) : Prop where
  nonempty : ∀ {key u}, r.get? key = some (.union u) → u.members ≠ []
  members : ∀ {key u}, r.get? key = some (.union u) →
    ∀ m ∈ u.members, ∃ o, r.get? m = some (.object o)
  references : ∀ {key o}, r.get? key = some (.object o) →
    ∀ ref ∈ o.references, ∃ t, r.get? ref = some t
  root : ∀ ref ∈ r.queryRoot.references, ∃ t, r.get? ref = some t

namespace Registry

variable {service : Service} {d : Csdl.Document} {augmentation : Option Augmentation} {r : Registry}
  {h : Hierarchy} {key : String} {o : ObjectType}

theorem exists_references_of_get? (ha : ∀ a ∈ augmentation, a.KeepsReferences)
    (hget : r.get? key = ((Types.ofDocument service d h).get? key).map fun t =>
      augmentation.getD id (t.annotate d key))
    (ho : r.get? key = some (.object o)) :
    ∃ o₀, (Types.ofDocument service d h).get? key = some (.object o₀) ∧
      ∀ ref ∈ o.references, ref ∈ o₀.references := by
  obtain ⟨o₀, ho₀, heq⟩ := exists_object_of_get? (fun a hmem => (ha a hmem).shape) hget ho
  refine ⟨o₀, ho₀, fun ref href => ?_⟩
  cases augmentation with
  | none =>
    cases heq
    exact ObjectType.references_annotate href
  | some a => exact ObjectType.references_annotate ((ha a rfl).references _ _ heq ref href)

theorem references_augmentRoot {a : Augmentation} (ha : a.KeepsReferences) {root : ObjectType}
    {ref : String} (href : ref ∈ (augmentRoot a root).references) : ref ∈ root.references := by
  rw [augmentRoot] at href
  cases ho : (a (.object root)).object? with
  | none =>
    rw [ho] at href
    exact href
  | some o =>
    rw [ho] at href
    exact ha.references root o (Descriptor.object?_eq_some_iff.1 ho) ref href

/-- The query root names types that are registered. -/
theorem references_queryRoot (ha : ∀ a ∈ augmentation, a.KeepsReferences)
    (hr : build service d augmentation = .ok r) {ref : String}
    (href : ref ∈ r.queryRoot.references) : ∃ t, r.get? ref = some t := by
  obtain ⟨_, r₀, _, hmade, rfl⟩ := exists_augmented_of_build hr
  have hplain : ∀ ref ∈ r₀.queryRoot.references, ∃ t, r₀.types.get? ref = some t := by
    intro ref href
    rw [hmade.queryRoot, hmade.types] at href
    rw [hmade.types, ← OrderedMap.mem_keys_iff]
    rcases ObjectType.mem_references.1 href with ⟨field, f, hf, href⟩ | ⟨a, hmem, _⟩
    · exact Roots.mem_keys_of_references hf href
    · cases hmem
  cases augmentation with
  | none => exact hplain ref href
  | some a =>
    obtain ⟨t, ht⟩ := hplain ref (references_augmentRoot (ha a rfl) href)
    exact ⟨a t, (OrderedMap.get?_map _ _ _).trans (by rw [ht]; rfl)⟩

/-- A registry is closed as long as no structured type and no type that is referred to is named
like the base variant of a type that others extend. Otherwise what is referred to can be missing,
and unions can have members that are no objects, or none. -/
theorem closed_of_build (ha : ∀ a ∈ augmentation, a.KeepsReferences)
    (hr : build service d augmentation = .ok r) :
    (∀ ref ∈ r.queryRoot.references, ∃ t, r.get? ref = some t) ∧
    (∀ key o, r.get? key = some (.object o) → ∀ ref ∈ o.references,
      (∃ t, r.get? ref = some t) ∨ ref ∈ d.referencedNames ∧ d.IsVariant ref) ∧
    ((∀ name ∈ d.typeNames, ¬ d.IsVariant name) → ∀ key u, r.get? key = some (.union u) →
      u.members ≠ [] ∧ ∀ m ∈ u.members, ∃ o, r.get? m = some (.object o)) ∧
    ((∀ name ∈ d.typeNames ++ d.referencedNames, ¬ d.IsVariant name) → r.Closed) := by
  obtain ⟨h, hh, hget⟩ := exists_get?_of_build hr
  have hroot : ∀ ref ∈ r.queryRoot.references, ∃ t, r.get? ref = some t :=
    fun _ => references_queryRoot ha hr
  have hobjects : ∀ key o, r.get? key = some (.object o) → ∀ ref ∈ o.references,
      (∃ t, r.get? ref = some t) ∨ ref ∈ d.referencedNames ∧ d.IsVariant ref := by
    intro key o ho ref href
    have hrefers := Types.refers_ofDocument service d h
    obtain ⟨o₀, ho₀, hreferences⟩ := exists_references_of_get? ha (hget key) ho
    have hknown := hrefers.references ho₀ ref (hreferences ref href)
    refine (hrefers.kept hknown).imp (fun hmem => ?_) fun hv => ⟨hknown.2, hv.of_ofTypes hh⟩
    obtain ⟨t, ht⟩ := OrderedMap.mem_keys_iff.1 hmem
    exact ⟨_, by rw [hget, ht]; rfl⟩
  have hunions : (∀ name ∈ d.typeNames, ¬ d.IsVariant name) →
      ∀ key u, r.get? key = some (.union u) →
        u.members ≠ [] ∧ ∀ m ∈ u.members, ∃ o, r.get? m = some (.object o) := by
    intro hd key u hu
    obtain ⟨h', hh', hshape⟩ := exists_shape?_of_build (fun a hmem => (ha a hmem).shape) hr
    cases hh.symm.trans hh'
    have hsettled : (Types.ofDocument service d h).Unions h := by
      obtain ⟨F, hF, _⟩ := Types.exists_ofDocument_within service d h
      exact hF ▸ (Types.unions_placed (Hierarchy.fits_of_ofTypes hh hd)).foldl_settle _
    have hunion : r.shape? key = some (.union u.members) := shape?_eq_union_iff.2 ⟨u, hu, rfl⟩
    rw [hshape, Option.map_eq_some_iff] at hunion
    obtain ⟨t, ht, ht'⟩ := hunion
    obtain ⟨u₀, rfl, hmembers⟩ := Descriptor.shape_eq_union_iff.1 ht'
    rw [← hmembers]
    obtain ⟨m, hm, _⟩ := hsettled.stays ht
    refine ⟨List.ne_nil_of_mem hm, fun m hm => shape?_eq_object_iff.1 ?_⟩
    obtain ⟨o, ho⟩ := hsettled.objects ht m hm
    rw [hshape, ho]
    rfl
  refine ⟨hroot, hobjects, hunions, fun hd => ?_⟩
  have hunions := hunions fun name hname => hd name (List.mem_append_left _ hname)
  refine ⟨fun hu => (hunions _ _ hu).1, fun hu => (hunions _ _ hu).2, fun ho ref href => ?_, hroot⟩
  refine (hobjects _ _ ho ref href).resolve_right fun ⟨hname, hv⟩ => ?_
  exact hd ref (List.mem_append_right _ hname) hv

theorem closed_of_kennel :
    ∃ r, build ⟨"zoo", "http://zoo.test/odata"⟩ kennel = .ok r ∧ r.Closed := by
  have hbuilds : (build ⟨"zoo", "http://zoo.test/odata"⟩ kennel).toOption.isSome = true := by
    decide
  cases hr : build ⟨"zoo", "http://zoo.test/odata"⟩ kennel with
  | error error => rw [hr] at hbuilds; cases hbuilds
  | ok r =>
    obtain ⟨_, _, _, hclosed⟩ := closed_of_build (fun _ h => by cases h) hr
    refine ⟨r, rfl, hclosed fun name hname => ?_⟩
    rintro ⟨_, base, _, heq⟩
    refine wellNamed_kennel.not_isBaseKey name ?_ ⟨base, heq⟩
    exact List.mem_append.2 ((List.mem_append.1 hname).imp_left (List.mem_append_right _))

/-- An empty type that another one extends, next to a type that is named like its base variant. -/
def annex : Csdl.Document where
  structuredTypes := [
    { name := "A", isAbstract := true },
    { name := "B", base := some "Zoo.A"
      members := [{ name := "N", type := "Edm.String" }, { name := "P", type := "Zoo.A_Base" }] },
    { name := "A_Base", kind := .complex }]

/-- The type and the base variant share a key, under which the empty base variant is left out. -/
theorem not_forall_closed : ¬ ∀ service d r, build service d = .ok r → r.Closed := by
  intro hclosed
  have hbuilds : (build ⟨"zoo", "http://zoo.test/odata"⟩ annex).toOption.map (fun r =>
      ((r.object? "B").map ObjectType.references, (r.get? "A_Base").isSome)) =
        some (some ["A_Base"], false) := by
    decide
  cases hr : build ⟨"zoo", "http://zoo.test/odata"⟩ annex with
  | error error => rw [hr] at hbuilds; cases hbuilds
  | ok r =>
    rw [hr] at hbuilds
    obtain ⟨hB, hA⟩ := Prod.mk.inj (Option.some.inj hbuilds)
    obtain ⟨o, ho, href⟩ := Option.map_eq_some_iff.1 hB
    obtain ⟨t, ht⟩ := (hclosed _ _ _ hr).references (object?_eq_some_iff.1 ho) "A_Base"
      (href ▸ List.mem_cons_self)
    rw [ht] at hA
    cases hA

end Registry

end ODataGraph
