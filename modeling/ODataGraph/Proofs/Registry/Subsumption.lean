import ODataGraph.Proofs.Registry.RootField
import ODataGraph.Proofs.Registry.Shape

/-!
Objects have the fields of the types that they stand below, with the same types. This holds of a
registry whose document gives no inherited field another type.
-/

namespace ODataGraph

open Csdl (StructuredType Extends)
open Relation (ReflTransGen TransGen)

/-- Fields that are declared under the name of an inherited one have its type. -/
def Csdl.Document.KeepsFieldTypes (service : Service) (d : Csdl.Document) : Prop :=
  ∀ name base, TransGen (Extends d.structuredTypes) name base → ∀ field f g,
    ((Types.declared service d).ownMap d name).get? field = some f →
    ((Types.declared service d).ownMap d base).get? field = some g → f.type = g.type

/-- A field apart from its description. -/
def Field.core (f : Field) : TypeReference × FieldKind := (f.type, f.kind)

theorem Field.core_annotate (f : Field) (cs : Capabilities) : (f.annotate cs).core = f.core := by
  rw [annotate]
  dsimp only
  split <;> rfl

theorem ObjectType.core_annotate (o : ObjectType) (cs : Capabilities)
    (properties : OrderedMap String (List Csdl.AppliedTerm)) (field : String) :
    ((o.annotate cs properties).fields.get? field).map Field.core =
      (o.fields.get? field).map Field.core := by
  simp only [annotate]
  generalize properties.entries = entries
  induction entries generalizing o with
  | nil => rfl
  | cons entry rest ih =>
    obtain ⟨name, annotations⟩ := entry
    rw [List.foldl_cons]
    by_cases hname : name.isEmpty = true
    · rw [if_pos hname]
      exact ih o
    · rw [if_neg hname]
      refine (ih { o with
        fields := o.fields.modify name (·.annotate (.ofAnnotations annotations)) }).trans ?_
      rw [OrderedMap.get?_modify]
      split
      · rw [Option.map_map]
        exact congrArg (Option.map · _) (funext fun f => Field.core_annotate f _)
      · rfl

/-- Where maps have the same fields but for descriptions, so do their entries. -/
theorem Field.exists_of_map_core {a b : Option Field} {f : Field}
    (h : a.map core = b.map core) (hb : b = some f) : ∃ g, a = some g ∧ g.core = f.core := by
  rw [hb, Option.map_some, Option.map_eq_some_iff] at h
  exact h

/-- Fields that are declared under the name of an inherited one are like it in some respect. -/
def Csdl.Document.Keeps {α : Type} (service : Service) (d : Csdl.Document)
    (view : TypeReference × FieldKind → α) : Prop :=
  ∀ name base, TransGen (Extends d.structuredTypes) name base → ∀ field f g,
    ((Types.declared service d).ownMap d name).get? field = some f →
    ((Types.declared service d).ownMap d base).get? field = some g → view f.core = view g.core

/-- Fields that are declared under the name of an inherited one have its kind. -/
def Csdl.Document.KeepsFieldKinds (service : Service) (d : Csdl.Document) : Prop :=
  d.Keeps service Prod.snd

namespace Types

variable {service : Service} {d : Csdl.Document} {h : Hierarchy} {name base field : String}
  {f g : Field} {α : Type} {view : TypeReference × FieldKind → α}

theorem ownMap_united (ho : h.Orders d.structuredTypes) (hd : d.WellNamed) :
    (united service d h).ownMap d = (declared service d).ownMap d :=
  ownMap_congr fun name hname => by
    rw [contains_united_of_referenced ho hd name hname, OrderedMap.contains_iff, mem_keys_declared]

/-- Inherited by a type and by one above it, a field keeps what is kept. -/
theorem view_of_inherits (ho : h.Orders d.structuredTypes) (hd : d.WellNamed)
    (hk : d.Keeps service view) (hway : ReflTransGen (Extends d.structuredTypes) name base)
    (hf : Inherits (Extends d.structuredTypes) ((united service d h).ownMap d) field name f)
    (hg : Inherits (Extends d.structuredTypes) ((united service d h).ownMap d) field base g) :
    view f.core = view g.core := by
  obtain ⟨top, htop, hown⟩ := hf.exists_reflTransGen
  obtain ⟨top', htop', hown'⟩ := hg.exists_reflTransGen
  rw [ownMap_united ho hd] at hown hown'
  have hsame : top = top' → view f.core = view g.core := by
    rintro rfl
    rw [Option.some.inj (hown.symm.trans hown')]
  have hunique : Relator.RightUnique (Extends d.structuredTypes) := fun _ _ _ => ho.base_unique
  rcases ReflTransGen.total_of_right_unique hunique htop (hway.trans htop') with hup | hup
  · rcases Relation.reflTransGen_iff_eq_or_transGen.1 hup with heq | hup
    · exact hsame heq.symm
    · exact hk top top' hup field f g hown hown'
  · rcases Relation.reflTransGen_iff_eq_or_transGen.1 hup with heq | hup
    · exact hsame heq
    · exact (hk top' top hup field g f hown' hown).symm

end Types

namespace Descriptor

/-- All fields have a property, if the type is an object. -/
def AllFields (t : Descriptor) (P : Field → Prop) : Prop :=
  ∀ o, t = .object o → ∀ field f, o.fields.get? field = some f → P f

variable {t : Descriptor} {P : Field → Prop}

theorem AllFields.addPlaceholder (h : t.AllFields P) (hP : P Types.placeholder) :
    t.addPlaceholder.AllFields P := by
  intro o ho field f hf
  cases t with
  | object t =>
    cases ho
    rw [OrderedMap.get?_insert] at hf
    split at hf
    · cases hf
      exact hP
    · exact h t rfl field f hf
  | enum e => cases ho
  | union u => cases ho

theorem AllFields.annotate (h : t.AllFields P) (hP : ∀ f g, f.core = g.core → P f → P g)
    (d : Csdl.Document) (key : String) : (t.annotate d key).AllFields P := by
  intro o ho field f hf
  cases t with
  | object t =>
    cases ho
    have hcore := ObjectType.core_annotate t (d.typeCapabilities key)
      (d.annotations.ofType (Csdl.Document.annotatedName key)) field
    obtain ⟨g, hg, hcore⟩ := Field.exists_of_map_core hcore.symm hf
    exact hP g f hcore (h t rfl field g hg)
  | enum e => cases ho
  | union u => cases ho

/-- The type has no field that only roots can have. -/
def OfEntity (t : Descriptor) : Prop :=
  ∀ o, t = .object o → ∀ field f, o.fields.get? field = some f → f.kind.ofEntity = true

theorem OfEntity.addPlaceholder (h : t.OfEntity) : t.addPlaceholder.OfEntity :=
  AllFields.addPlaceholder h rfl

theorem OfEntity.leave (h : t.OfEntity) (gone : List String) : (t.leave gone).OfEntity :=
  fun o ho => h o (Types.isObject_leave.1 ho)

theorem OfEntity.annotate (h : t.OfEntity) (d : Csdl.Document) (key : String) :
    (t.annotate d key).OfEntity := by
  apply AllFields.annotate (P := fun f => f.kind.ofEntity = true) h
  intro f g hcore hf
  have hkind : f.kind = g.kind := congrArg Prod.snd hcore
  exact hkind ▸ hf

end Descriptor

/-- A registry with the types of a document once they are settled. -/
structure Registry.Settled (service : Service) (d : Csdl.Document) (h : Hierarchy) (F : FieldMap)
    (r : Registry) : Prop where
  wellNamed : d.WellNamed
  orders : h.Orders d.structuredTypes
  inherited : Types.InheritedFields service d h F
  get?_eq : ∀ key, r.get? key =
    (((Types.united service d h).setFields F).settleEmpty.get? key).map (·.annotate d key)

namespace Registry

variable {service : Service} {d : Csdl.Document} {r : Registry} {h : Hierarchy} {F : FieldMap}
variable {key m name field : String} {o : ObjectType} {u : UnionType} {f : Field}

theorem exists_settled_of_build (hd : d.WellNamed) (hr : build service d = .ok r) :
    ∃ h F, Settled service d h F r := by
  obtain ⟨h, hh, hget⟩ := exists_get?_of_build hr
  have ho := Hierarchy.orders_of_ofTypes hd.nodup hh
  obtain ⟨F, hF, hfields⟩ := Types.exists_ofDocument_eq service ho hd
  refine ⟨h, F, hd, ho, hfields, fun key => ?_⟩
  rw [hget, hF]
  rfl

namespace Settled

theorem get?_of_isBase (hs : Settled service d h F r) (hbase : h.isBase key = true) :
    ∃ u, r.get? key = some (.union u) ∧ ∀ m, m ∈ u.members ↔ Types.IsMember d h key m := by
  obtain ⟨u, hu, _, hmembers⟩ :=
    Types.get?_settled_union hs.orders hs.wellNamed hs.inherited hbase
  rw [hs.get?_eq, hu]
  exact ⟨_, rfl, hmembers⟩

theorem isBase_of_get? (hs : Settled service d h F r) (hu : r.get? key = some (.union u)) :
    h.isBase key = true := by
  rw [hs.get?_eq, Option.map_eq_some_iff] at hu
  obtain ⟨t, ht, hannotate⟩ := hu
  cases t with
  | enum e => cases hannotate
  | object o => cases hannotate
  | union u => exact Types.isBase_of_get?_settled hs.orders hs.wellNamed ht

theorem mem_members_iff (hs : Settled service d h F r) (hu : r.get? key = some (.union u)) :
    m ∈ u.members ↔ Types.IsMember d h key m := by
  obtain ⟨u', hu', hmembers⟩ := hs.get?_of_isBase (hs.isBase_of_get? hu)
  cases hu.symm.trans hu'
  exact hmembers m

theorem typeNames_of_isBase (hs : Settled service d h F r) (hbase : h.isBase name = true) :
    name ∈ d.typeNames := by
  obtain ⟨_, hext⟩ := hs.orders.isBase_iff.1 hbase
  exact (Csdl.Document.typeNames_of_extends hext).2

/-- The object of a type with fields has those that the type inherits. -/
theorem exists_object (hs : Settled service d h F r) (hname : name ∈ d.typeNames)
    (hfields : d.HasFields name) :
    ∃ o, r.object? (h.objectKey name) = some o ∧ ∀ field,
      (o.fields.get? field).map Field.core =
        ((F (h.objectKey name)).get? field).map Field.core := by
  rw [object?, hs.get?_eq,
    Types.get?_settled_object hs.orders hs.wellNamed hs.inherited hname hfields]
  exact ⟨_, rfl, ObjectType.core_annotate _ _ _⟩

theorem hasFields_of_object? (hs : Settled service d h F r) (hbase : h.isBase name = true)
    (ho : r.object? (baseKey name) = some o) : d.HasFields name := by
  by_contra hnone
  rw [object?, hs.get?_eq, Types.get?_settled_baseKey hs.orders hs.wellNamed hs.inherited
    (hs.typeNames_of_isBase hbase) hbase hnone] at ho
  cases ho

theorem exists_object_of_isMember (hs : Settled service d h F r) (hname : name ∈ d.typeNames)
    (hm : Types.IsMember d h name m) : ∃ o, r.object? m = some o := by
  obtain ⟨y, hy, rfl, hstays⟩ := hm
  have hdeclared := Csdl.Document.typeNames_of_below hname hy
  by_cases hfields : d.HasFields y
  · obtain ⟨o, ho, _⟩ := hs.exists_object hdeclared hfields
    exact ⟨o, ho⟩
  · have hleaf : ¬ h.isBase y = true := fun hbase => hfields (hstays hbase)
    rw [Hierarchy.objectKey, if_neg hleaf, object?, hs.get?_eq, Types.get?_settled_empty hs.orders
      hs.wellNamed hs.inherited hdeclared hleaf hfields]
    exact ⟨_, rfl⟩

/-- Objects have no fields that only roots can have. -/
theorem ofEntity_of_object? (hs : Settled service d h F r) (ho : r.object? key = some o)
    (hf : o.fields.get? field = some f) : f.kind.ofEntity = true := by
  have ht := object?_eq_some_iff.1 ho
  rw [hs.get?_eq, Option.map_eq_some_iff] at ht
  obtain ⟨t, ht, hobject⟩ := ht
  rw [Types.get?_settleEmpty (Types.settleable_placed hs.orders hs.wellNamed)] at ht
  split at ht
  · cases ht
  obtain ⟨t, hplaced, rfl⟩ := Option.map_eq_some_iff.1 ht
  have hentity : t.OfEntity := by
    rintro o rfl field f hf
    rcases Types.cases_get?_placed hs.orders hs.wellNamed hplaced with
      ⟨e, heq⟩ | ⟨name, hname, rfl, heq⟩ | ⟨_, heq⟩
    · cases heq
    · cases heq
      obtain ⟨top, _, hown⟩ := ((hs.inherited name hname field f).1 hf).exists_reflTransGen
      exact Types.ofEntity_of_get?_ownMap hown
    · cases heq
  have hsettled :
      (Types.settled ((Types.united service d h).setFields F).emptyKeys key t).OfEntity := by
    rw [Types.settled]
    split
    · exact hentity.addPlaceholder
    · exact hentity.leave _
  exact hsettled.annotate d key o hobject field f hf

/-- Every object that a value can be is registered. -/
theorem exists_object_of_mem (hs : Settled service d h F r) (hm : m ∈ r.possibleTypes key) :
    ∃ o, r.object? m = some o := by
  rw [possibleTypes] at hm
  split at hm
  · rename_i o ho
    rw [List.mem_singleton.1 hm]
    exact ⟨o, object?_eq_some_iff.2 ho⟩
  · rename_i u hu
    have hname := hs.typeNames_of_isBase (hs.isBase_of_get? hu)
    exact hs.exists_object_of_isMember hname ((hs.mem_members_iff hu).1 hm)
  · cases hm

/-- A field of a type is one of all objects that its values can be. -/
theorem exists_view_of_mem {α : Type} {view : TypeReference × FieldKind → α}
    (hs : Settled service d h F r) (hk : d.Keeps service view)
    {objectKey : String} (hm : m ∈ r.possibleTypes key)
    (ho : r.concreteObject? key = some (objectKey, o)) (hf : o.fields.get? field = some f) :
    ∃ o' f', r.object? m = some o' ∧ o'.fields.get? field = some f' ∧
      view f'.core = view f.core := by
  obtain ⟨hkey, ho⟩ := concreteObject?_eq_some_iff.1 ho
  rw [Types.fieldsKey?] at hkey
  rw [possibleTypes, get?] at hm
  cases ht : r.types.get? key with
  | none => rw [ht] at hm; cases hm
  | some t =>
    rw [ht] at hm hkey
    cases t with
    | enum e => cases hm
    | object t =>
      cases hkey
      rw [List.mem_singleton.1 hm]
      exact ⟨o, f, ho, hf, rfl⟩
    | union u =>
      cases hkey
      have hbase := hs.isBase_of_get? ht
      have hname := hs.typeNames_of_isBase hbase
      have hfields := hs.hasFields_of_object? hbase ho
      obtain ⟨y, hy, rfl, _⟩ := (hs.mem_members_iff ht).1 hm
      have hway := Relation.reflTransGen_iff_eq_or_transGen.2 (hy.imp_left Eq.symm)
      have hdeclared := Csdl.Document.typeNames_of_below hname hy
      obtain ⟨t, ht, hcore⟩ := hs.exists_object hname hfields
      rw [Hierarchy.objectKey, if_pos hbase, ho, Option.some.injEq] at ht
      subst ht
      obtain ⟨g, hg, hfg⟩ := Field.exists_of_map_core (hcore field).symm hf
      have hinherits := (hs.inherited key hname field g).1 hg
      obtain ⟨top, htop, hown⟩ := hinherits.exists_reflTransGen
      obtain ⟨g', hg'⟩ := Inherits.exists_of_reflTransGen (hway.trans htop) hown
      obtain ⟨o', ho', hcore'⟩ := hs.exists_object hdeclared (hfields.of_below hway)
      obtain ⟨f', hf', hfg'⟩ := Field.exists_of_map_core (hcore' field)
        ((hs.inherited y hdeclared field g').2 hg')
      refine ⟨o', f', ho', hf', ?_⟩
      have hview := Types.view_of_inherits hs.orders hs.wellNamed hk hway hg' hinherits
      rw [hfg', hview, hfg]

theorem exists_field_of_mem (hs : Settled service d h F r) (hk : d.KeepsFieldTypes service)
    {objectKey : String} (hm : m ∈ r.possibleTypes key)
    (ho : r.concreteObject? key = some (objectKey, o)) (hf : o.fields.get? field = some f) :
    ∃ o' f', r.object? m = some o' ∧ o'.fields.get? field = some f' ∧ f'.type = f.type := by
  have hk : d.Keeps service Prod.fst := hk
  exact hs.exists_view_of_mem hk hm ho hf

theorem objectKey_of_concreteObject? (hs : Settled service d h F r) {objectKey : String}
    (ho : r.concreteObject? key = some (objectKey, o)) :
    (h.isBase key = true ∧ objectKey = baseKey key ∧ d.HasFields key) ∨
      ¬ h.isBase key = true ∧ objectKey = key ∧ r.get? key = some (.object o) := by
  obtain ⟨hkey, ho⟩ := concreteObject?_eq_some_iff.1 ho
  rw [Types.fieldsKey?] at hkey
  split at hkey
  · rename_i t ht
    cases hkey
    refine .inr ⟨fun hbase => ?_, rfl, object?_eq_some_iff.1 ho⟩
    obtain ⟨u, hu, _⟩ := hs.get?_of_isBase hbase
    cases hu.symm.trans ht
  · rename_i u hu
    cases hkey
    have hbase := hs.isBase_of_get? hu
    exact .inl ⟨hbase, rfl, hs.hasFields_of_object? hbase ho⟩
  · cases hkey

/-- The object of a subtype is one that values of the type can be. -/
theorem mem_possibleTypes_of_below (hs : Settled service d h F r) {objectKey declared : String}
    (hkey : key = declared ∨ TransGen (Extends d.structuredTypes) key declared)
    (ho : r.concreteObject? key = some (objectKey, o)) : objectKey ∈ r.possibleTypes declared := by
  have hobject := hs.objectKey_of_concreteObject? ho
  by_cases hdeclared : h.isBase declared = true
  · obtain ⟨u, hu, hmembers⟩ := hs.get?_of_isBase hdeclared
    rw [possibleTypes, hu]
    refine (hmembers objectKey).2 ⟨key, hkey, ?_, fun hbase => ?_⟩
    · rcases hobject with ⟨hbase, rfl, _⟩ | ⟨hbase, rfl, _⟩
      · rw [Hierarchy.objectKey, if_pos hbase]
      · rw [Hierarchy.objectKey, if_neg hbase]
    · rcases hobject with ⟨_, _, hfields⟩ | ⟨hleaf, _⟩
      · exact hfields
      · exact absurd hbase hleaf
  · have heq : key = declared := by
      refine hkey.resolve_right fun hbelow => hdeclared ?_
      obtain ⟨child, _, hext⟩ := TransGen.tail'_iff.1 hbelow
      exact hs.orders.isBase_iff.2 ⟨child, hext⟩
    subst heq
    rcases hobject with ⟨hbase, _⟩ | ⟨_, rfl, hget⟩
    · exact absurd hbase hdeclared
    · rw [possibleTypes, hget]
      exact List.mem_singleton_self _

end Settled

end Registry

/-- An object has no field that only entities can have. -/
def ObjectType.OfRoot (o : ObjectType) : Prop :=
  ∀ field f, o.fields.get? field = some f → f.kind.ofRoot = true

theorem Roots.ofRoot_ofContainer (service : Service) (d : Csdl.Document) (ts : Types) :
    (ObjectType.queryRoot service (ofContainer d ts).fields).OfRoot := by
  intro field f hf
  exact all_ofContainer (P := fun f => f.kind.ofRoot = true) (fun _ _ => rfl) (fun _ _ => rfl) hf

theorem ObjectType.ofRoot_mutationRoot (service : Service) : (mutationRoot service).OfRoot := by
  intro field f hf
  rw [mutationRoot, OrderedMap.get?_insert] at hf
  split at hf
  · cases hf
    rfl
  · cases hf

theorem Registry.ofRoot_of_build {service : Service} {d : Csdl.Document} {r : Registry}
    (hr : build service d = .ok r) : r.queryRoot.OfRoot ∧ r.mutationRoot.OfRoot := by
  obtain ⟨_, _, hmade⟩ := exists_madeFrom_of_build hr
  rw [hmade.queryRoot, hmade.mutationRoot]
  exact ⟨Roots.ofRoot_ofContainer service d r.types, ObjectType.ofRoot_mutationRoot service⟩

end ODataGraph
