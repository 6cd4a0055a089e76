import ODataGraph.Proofs.Registry.NearestField
import ODataGraph.Proofs.Registry.TypeAnnotation

/-!
What fields offer that a type inherits. They are handed down before annotations are applied, and
annotations are about the property of one type, so that a field that lists entities has on every
object just those query options that are recorded for the type of the object. All other fields take
the same arguments wherever they are inherited.
-/

namespace ODataGraph

open Csdl (AppliedTerm Extends)
open Relation (ReflTransGen TransGen)

/-- A field apart from its description and directives. -/
def Field.offer (f : Field) : (TypeReference × FieldKind) × OrderedMap String Argument :=
  (f.core, f.arguments)

/-- The field lists entities that are asked for, and can take query options. -/
def Field.ListsEntities (f : Field) : Prop := f.kind = .navigation ∧ f.type.isList

theorem Field.listsEntities_congr {f g : Field} (h : f.core = g.core) :
    f.ListsEntities ↔ g.ListsEntities := by
  obtain ⟨htype, hkind⟩ := Prod.mk.inj h
  rw [ListsEntities, ListsEntities, htype, hkind]

namespace Csdl.Document

/-- What the annotations make of a field that are recorded for a property of a type. -/
def annotateField (d : Csdl.Document) (name property : String) (f : Field) : Field :=
  let about := d.annotations.about ⟨name, property⟩
  if property = "" ∨ about = [] then f else f.annotate (.ofAnnotations about)

/-- The query options that the annotations allow which are recorded for a property of a type. There
are none without annotations. -/
def propertyOptions (d : Csdl.Document) (name property : String) : OrderedMap String Argument :=
  let about := d.annotations.about ⟨name, property⟩
  if property = "" ∨ about = [] then ∅ else (Capabilities.ofAnnotations about).arguments

end Csdl.Document

theorem Field.arguments_annotate {f : Field} {cs : Capabilities} (hf : f.ListsEntities)
    (hnone : f.arguments = ∅) : (f.annotate cs).arguments = cs.arguments := by
  have hlists : f.kind = .navigation ∧ f.type.isList = true := hf
  rw [annotate]
  simp only [hlists, and_self, if_true, hnone]
  exact OrderedMap.ext (OrderedMap.entries_ofList cs.arguments.nodup)

theorem Field.arguments_annotate_of_not {f : Field} {cs : Capabilities} (hf : ¬ f.ListsEntities) :
    (f.annotate cs).arguments = f.arguments := by
  have hlists : ¬ (f.kind = .navigation ∧ f.type.isList = true) := hf
  rw [annotate]
  simp only [if_neg hlists]

section annotateField

variable {d : Csdl.Document} {name property : String} {f : Field}

theorem core_annotateField (d : Csdl.Document) (name property : String) (f : Field) :
    (d.annotateField name property f).core = f.core := by
  rw [Csdl.Document.annotateField]
  split
  · rfl
  · exact f.core_annotate _

theorem arguments_annotateField (hf : f.ListsEntities) (hnone : f.arguments = ∅) :
    (d.annotateField name property f).arguments = d.propertyOptions name property := by
  rw [Csdl.Document.annotateField, Csdl.Document.propertyOptions]
  split
  · exact hnone
  · exact f.arguments_annotate hf hnone

theorem arguments_annotateField_of_not (hf : ¬ f.ListsEntities) :
    (d.annotateField name property f).arguments = f.arguments := by
  rw [Csdl.Document.annotateField]
  split
  · rfl
  · exact f.arguments_annotate_of_not hf

end annotateField

namespace ObjectType

/-- Each field is annotated once, as there is one list of annotations for each property. -/
theorem get?_foldl_annotate {l : List (String × List AppliedTerm)} (hl : (l.map Prod.fst).Nodup)
    (fields : OrderedMap String Field) (field : String) :
    (l.foldl (fun fields (name, annotations) =>
      if name.isEmpty then fields
      else fields.modify name (·.annotate (.ofAnnotations annotations))) fields).get? field =
      (fields.get? field).map fun f => if field = "" then f
        else (l.lookup field).elim f (f.annotate <| .ofAnnotations ·) := by
  induction l generalizing fields with
  | nil => simp
  | cons e rest ih =>
    obtain ⟨name, annotations⟩ := e
    obtain ⟨hnew, hrest⟩ := List.nodup_cons.1 hl
    rw [List.foldl_cons, ih hrest, List.lookup_cons]
    by_cases hfield : field = name
    · subst hfield
      have hnone : rest.lookup field = none :=
        OrderedMap.get?_eq_none_iff (m := ⟨rest, hrest⟩).2 hnew
      simp only [hnone, Option.elim_none, ite_self, Option.map_id', beq_self_eq_true,
        Option.elim_some]
      by_cases hempty : field = ""
      · simp [hempty]
      · rw [if_neg (by simpa using hempty), OrderedMap.get?_modify, if_pos rfl]
        simp only [if_neg hempty]
    · have hsame : (if name.isEmpty then fields
          else fields.modify name (·.annotate (.ofAnnotations annotations))).get? field =
            fields.get? field := by
        split
        · rfl
        · rw [OrderedMap.get?_modify, if_neg hfield]
      simp only [hsame, beq_false_of_ne hfield]

/-- What annotations make of the fields of an object, one by one. -/
theorem get?_annotate (o : ObjectType) (cs : Capabilities) (d : Csdl.Document)
    (name field : String) :
    (o.annotate cs (d.annotations.ofType name)).fields.get? field =
      (o.fields.get? field).map (d.annotateField name field) := by
  have hlookup : (d.annotations.ofType name).entries.lookup field = _ :=
    d.annotations.get?_ofType name field
  rw [annotate]
  dsimp only
  rw [get?_foldl_annotate (d.annotations.ofType name).nodup, hlookup]
  congr 1
  funext f
  rw [Csdl.Document.annotateField]
  by_cases hfield : field = ""
  · simp [hfield]
  · by_cases habout : d.annotations.about ⟨name, field⟩ = [] <;> simp [hfield, habout]

end ObjectType

namespace Types

variable {ts : Types} {service : Service} {d : Csdl.Document} {h : Hierarchy}
  {name base field : String} {f : Field}

/-- Navigation properties come without arguments. -/
theorem arguments_of_get?_ownMap (hf : (ts.ownMap d name).get? field = some f)
    (hkind : f.kind = .navigation) : f.arguments = ∅ := by
  rw [get?_ownMap] at hf
  split at hf
  · cases hf
    rfl
  · obtain ⟨before, after, hl, _⟩ := List.lookup_eq_some_iff.1 hf
    have hmem : (field, f) ∈ ts.ownFields d name := by
      rw [hl]
      exact List.mem_append_right _ List.mem_cons_self
    rcases mem_ownFields.1 hmem with ⟨_, _, _, m, _, hm⟩ | ⟨g, _, _, binding, _, _, hg⟩
    · obtain ⟨_, t, _, rfl⟩ := memberField?_eq_some_iff.1 hm
      rfl
    · simp only [functionField?, Option.bind_eq_bind, Option.bind_eq_some_iff] at hg
      obtain ⟨_, _, _, _, arguments, _, hg⟩ := hg
      cases hg
      cases hkind

/-- A type inherits the field of a type above it if neither it nor a type between them has one. -/
theorem inherits_of_below (ho : h.Orders d.structuredTypes) (hd : d.WellNamed)
    (hway : TransGen (Extends d.structuredTypes) name base)
    (hno : ∀ mid, ReflTransGen (Extends d.structuredTypes) name mid →
      TransGen (Extends d.structuredTypes) mid base → ¬ d.ContributesField field mid)
    (hf : Inherits (Extends d.structuredTypes) ((united service d h).ownMap d) field base f) :
    Inherits (Extends d.structuredTypes) ((united service d h).ownMap d) field name f := by
  by_cases hfield : field = rawValueField
  · -- every type has a raw value of its own, and all are the same
    obtain ⟨top, _, hown⟩ := hf.exists_reflTransGen
    rw [get?_ownMap, if_pos hfield] at hown
    exact .own (by rw [get?_ownMap, if_pos hfield, hown])
  · have hnone : ∀ mid, ¬ d.ContributesField field mid →
        ((united service d h).ownMap d mid).get? field = none := by
      intro mid hmid
      refine Option.eq_none_iff_forall_ne_some.2 fun g hg => hmid ?_
      refine Csdl.Document.exists_supplies_iff.1 ⟨g.type, g.kind, ?_⟩
      exact (exists_get?_ownMap_iff (contains_united_of_referenced ho hd) hfield).1 ⟨g, hg, rfl⟩
    induction hway using TransGen.head_induction_on with
    | single hext => exact .base (hnone _ (hno _ .refl (.single hext))) hext hf
    | head hext hrest ih =>
      refine .base (hnone _ (hno _ .refl (.head hext hrest))) hext (ih fun mid hmid => ?_)
      exact hno mid (.head hext hmid)

end Types

/-- The augmentation leaves the shape of types as it is, and what the fields of objects hold, where
that comes from and which arguments they take. -/
structure Augmentation.KeepsOffers (a : Augmentation) : Prop where
  shape : a.KeepsShape
  offer : ∀ o o', a (.object o) = .object o' → ∀ field,
    (o'.fields.get? field).map Field.offer = (o.fields.get? field).map Field.offer

namespace Registry

variable {service : Service} {d : Csdl.Document} {augmentation : Option Augmentation} {r : Registry}
  {name base field : String} {g : Field}

theorem annotatedName_objectKey {h : Hierarchy} (hname : ¬ IsBaseKey name) :
    Csdl.Document.annotatedName (h.objectKey name) = name := by
  rw [Csdl.Document.annotatedName, Hierarchy.objectKey]
  split
  · rw [dropEnd?_baseEnding.2 rfl, Option.getD_some]
  · rw [dropEnd?_eq_none hname, Option.getD_none]

/-- The fields of a type with fields are those that it inherits, with what the annotations of their
properties make of them for this type. -/
theorem exists_offers_of_build (hd : d.WellNamed) (ha : ∀ a ∈ augmentation, a.KeepsOffers)
    (hr : build service d augmentation = .ok r) :
    ∃ h F, h.Orders d.structuredTypes ∧ Types.InheritedFields service d h F ∧
      ∀ name ∈ d.typeNames, ∀ key o, r.concreteObject? name = some (key, o) →
        (d.HasSubtypes name → d.HasFields name) ∧ (d.HasFields name → ∀ field,
          (o.fields.get? field).map Field.offer = ((F (h.objectKey name)).get? field).map fun f =>
            (d.annotateField name field f).offer) := by
  obtain ⟨h, hh, hget⟩ := exists_get?_of_build hr
  obtain ⟨h', hh', hshape⟩ := exists_shape?_of_build (fun a hmem => (ha a hmem).shape) hr
  cases hh.symm.trans hh'
  have ho := Hierarchy.orders_of_ofTypes hd.nodup hh
  obtain ⟨F, hF, hfields⟩ : ∃ F, Types.ofDocument service d h = _ ∧
    Types.InheritedFields service d h F := Types.exists_ofDocument_eq service ho hd
  refine ⟨h, F, ho, hfields, fun name hname key o hconcrete => ?_⟩
  obtain ⟨hkey, hobject⟩ := concreteObject?_eq_some_iff.1 hconcrete
  rw [fieldsKey?_of_build hd ho hshape hname, Option.some.injEq] at hkey
  subst hkey
  obtain ⟨o₀, hsettled, heq⟩ := exists_object_of_get? (fun a hmem => (ha a hmem).shape) (hget _)
    (object?_eq_some_iff.1 hobject)
  rw [hF] at hsettled
  constructor
  · intro hsub
    have hbase := (Types.isBase_iff_hasSubtypes ho hname).2 hsub
    by_contra hno
    rw [Hierarchy.objectKey, if_pos hbase, Types.get?_settled_baseKey ho hd hfields hname hbase hno]
      at hsettled
    cases hsettled
  · intro hhas field
    cases (Types.get?_settled_object ho hd hfields hname hhas).symm.trans hsettled
    have hannotate := ObjectType.get?_annotate
      { ObjectType.bare service (h.objectKey name) with fields := F (h.objectKey name) }
      (d.typeCapabilities (h.objectKey name)) d name field
    rw [← Function.comp_def, ← Option.map_map, ← hannotate]
    rw [Descriptor.annotate, annotatedName_objectKey (hd.of_typeNames hname)] at heq
    cases augmentation with
    | none =>
      cases heq
      rfl
    | some a => exact (ha a rfl).offer _ _ heq field

/-- An inherited field has the type and the kind that it has on the object of a type above, and
takes the same arguments, unless it lists entities. Then it takes on each of the two objects the
query options that are recorded for this property of this type. -/
theorem options_of_build (hd : d.WellNamed) (ha : ∀ a ∈ augmentation, a.KeepsOffers)
    (hr : build service d augmentation = .ok r)
    (hway : TransGen (Extends d.structuredTypes) name base)
    {objectKey baseObjectKey : String} {o baseObject : ObjectType}
    (ho : r.concreteObject? name = some (objectKey, o))
    (hbase : r.concreteObject? base = some (baseObjectKey, baseObject))
    (hno : ∀ mid, ReflTransGen (Extends d.structuredTypes) name mid →
      TransGen (Extends d.structuredTypes) mid base → ¬ d.ContributesField field mid)
    (hg : baseObject.fields.get? field = some g) :
    ∃ f, o.fields.get? field = some f ∧ f.type = g.type ∧ f.kind = g.kind ∧
      (¬ g.ListsEntities → f.arguments = g.arguments) ∧
      (g.ListsEntities → f.arguments = d.propertyOptions name field ∧
        g.arguments = d.propertyOptions base field) := by
  obtain ⟨h, F, horders, hfields, hoffers⟩ := exists_offers_of_build hd ha hr
  obtain ⟨mid, _, hlast⟩ := TransGen.tail'_iff.1 hway
  have hbaseName := (Csdl.Document.typeNames_of_extends hlast).2
  have hname := Csdl.Document.typeNames_of_below hbaseName (.inr hway)
  -- a base that is a union and has an object has fields, and so have the types below it
  obtain ⟨hhas, hbaseOffers⟩ := hoffers base hbaseName _ _ hbase
  obtain ⟨_, hnameOffers⟩ := hoffers name hname _ _ ho
  obtain ⟨t, ht, _, htbase, _⟩ := hlast
  have hhas := hhas ⟨t, ht, htbase⟩
  have hbaseOffer := hbaseOffers hhas field
  have hnameOffer := hnameOffers (hhas.of_below hway.to_reflTransGen) field
  -- both fields come from the one that the type above inherits
  rw [hg, Option.map_some, eq_comm, Option.map_eq_some_iff] at hbaseOffer
  obtain ⟨f₀, hf₀, hg₀⟩ := hbaseOffer
  have hinherits := (hfields base hbaseName field f₀).1 hf₀
  have hinherits' := Types.inherits_of_below horders hd hway hno hinherits
  rw [(hfields name hname field f₀).2 hinherits', Option.map_some, Option.map_eq_some_iff]
    at hnameOffer
  obtain ⟨f, hf, hoffer⟩ := hnameOffer
  obtain ⟨hcore, harguments⟩ := Prod.mk.inj hoffer
  obtain ⟨hcore', harguments'⟩ := Prod.mk.inj hg₀
  rw [core_annotateField] at hcore hcore'
  have hlists : f₀.ListsEntities ↔ g.ListsEntities := Field.listsEntities_congr hcore'
  refine ⟨f, hf, congrArg Prod.fst (hcore.trans hcore'), congrArg Prod.snd (hcore.trans hcore'),
    fun hnot => ?_, fun hlist => ?_⟩
  · rw [← hlists] at hnot
    rw [harguments, ← harguments', arguments_annotateField_of_not hnot,
      arguments_annotateField_of_not hnot]
  · rw [← hlists] at hlist
    obtain ⟨top, _, hown⟩ := hinherits.exists_reflTransGen
    have hnone := Types.arguments_of_get?_ownMap hown hlist.1
    exact ⟨harguments.trans (arguments_annotateField hlist hnone),
      harguments'.symm.trans (arguments_annotateField hlist hnone)⟩

/-- A set of animals that are friends, of which only the friends of any animal are described. -/
def herd : Csdl.Document where
  structuredTypes := [
    { name := "Animal"
      members := [{ name := "Friends", type := "Collection(Zoo.Animal)", kind := .navigation }] },
    { name := "Dog", base := some "Zoo.Animal" }]
  annotations := ⟨[(⟨"animal", "Friends"⟩,
    { term := "Org.OData.Core.V1.Description"
      attributes := (∅ : OrderedMap String String).insert "String" "Those it plays with" })]⟩

theorem wellNamed_herd : herd.WellNamed where
  nodup := by decide
  not_isBaseKey := by
    simp only [← isBaseKey_iff]
    decide

theorem extends_herd_iff {name base : String} :
    Extends herd.structuredTypes name base ↔ name = "Dog" ∧ base = "Animal" := by
  have hAnimal : Csdl.StructuredType.baseName herd.structuredTypes[0] = none := by
    decide
  have hDog : Csdl.StructuredType.baseName herd.structuredTypes[1] = some "Animal" := by
    decide
  simp only [herd, List.getElem_cons_zero, List.getElem_cons_succ] at hAnimal hDog
  simp only [Extends, herd, List.mem_cons, List.not_mem_nil, or_false, exists_eq_or_imp,
    exists_eq_left, hAnimal, hDog, Option.some.injEq, List.map_cons, List.map_nil]
  aesop

theorem not_contributes_herd {field : String} : ¬ herd.ContributesField field "Dog" := by
  rintro (⟨m, hm, _⟩ | ⟨f, hf, _⟩)
  · exact absurd hm List.not_mem_nil
  · exact absurd hf List.not_mem_nil

/-- The names of the arguments of a field of a type. -/
def argumentNames? (r : Registry) (name field : String) : Option (List String) := do
  let (_, o) ← r.concreteObject? name
  let f ← o.fields.get? field
  return f.arguments.keys

theorem argumentNames?_eq_some_iff {names : List String} :
    r.argumentNames? name field = some names ↔ ∃ key o f,
      r.concreteObject? name = some (key, o) ∧ o.fields.get? field = some f ∧
        f.arguments.keys = names := by
  simp only [argumentNames?, Option.bind_eq_bind, Option.bind_eq_some_iff, Option.pure_def,
    Option.some.injEq, Prod.exists]
  constructor
  · rintro ⟨key, o, ho, f, hf, hnames⟩
    exact ⟨key, o, f, ho, hf, hnames⟩
  · rintro ⟨key, o, f, ho, hf, hnames⟩
    exact ⟨key, o, ho, f, hf, hnames⟩

theorem exists_build_herd : ∃ r, build ⟨"zoo", "http://zoo.test/odata"⟩ herd = .ok r ∧
    r.argumentNames? "Dog" "Friends" = some [] ∧ r.argumentNames? "Animal" "Friends" =
      some ["_count", "_top", "_skip", "_search", "_filter", "_orderby"] := by
  have hbuilds : (build ⟨"zoo", "http://zoo.test/odata"⟩ herd).toOption.map (fun r =>
      (r.argumentNames? "Dog" "Friends", r.argumentNames? "Animal" "Friends")) =
        some (some [], some ["_count", "_top", "_skip", "_search", "_filter", "_orderby"]) := by
    decide
  cases hr : build ⟨"zoo", "http://zoo.test/odata"⟩ herd with
  | error error => rw [hr] at hbuilds; cases hbuilds
  | ok r =>
    rw [hr] at hbuilds
    obtain ⟨hDog, hAnimal⟩ := Prod.mk.inj (Option.some.inj hbuilds)
    exact ⟨r, rfl, hDog, hAnimal⟩

/-- Friends are inherited, but not the options that come with their description. -/
theorem not_forall_keeps_options : ¬ ∀ service d r, d.WellNamed → build service d = .ok r →
    ∀ name base, Extends d.structuredTypes name base → ∀ key baseObjectKey o baseObject,
      r.concreteObject? name = some (key, o) →
      r.concreteObject? base = some (baseObjectKey, baseObject) → ∀ field g,
        baseObject.fields.get? field = some g → ¬ d.ContributesField field name →
        ∃ f, o.fields.get? field = some f ∧ f.type = g.type ∧ f.kind = g.kind ∧
          f.arguments = g.arguments := by
  intro hkeeps
  obtain ⟨r, hr, hDog, hAnimal⟩ := exists_build_herd
  obtain ⟨_, _, f, ho, hf, hnone⟩ := argumentNames?_eq_some_iff.1 hDog
  obtain ⟨_, _, g, hbase, hg, hall⟩ := argumentNames?_eq_some_iff.1 hAnimal
  obtain ⟨f', hf', _, _, harguments⟩ := hkeeps _ _ _ wellNamed_herd hr _ _
    (extends_herd_iff.2 ⟨rfl, rfl⟩) _ _ _ _ ho hbase _ _ hg not_contributes_herd
  cases hf.symm.trans hf'
  rw [harguments, hall] at hnone
  cases hnone

/-- As nothing is said about the friends of a dog, the inherited field takes no options. -/
theorem options_of_herd : ∃ r, build ⟨"zoo", "http://zoo.test/odata"⟩ herd = .ok r ∧
    ∃ key o f, r.concreteObject? "Dog" = some (key, o) ∧ o.fields.get? "Friends" = some f ∧
      f.kind = .navigation ∧ f.arguments = herd.propertyOptions "Dog" "Friends" := by
  obtain ⟨r, hr, hDog, hAnimal⟩ := exists_build_herd
  obtain ⟨key, o, f, ho, hf, hnone⟩ := argumentNames?_eq_some_iff.1 hDog
  obtain ⟨_, _, g, hbase, hg, hall⟩ := argumentNames?_eq_some_iff.1 hAnimal
  have hway : TransGen (Extends herd.structuredTypes) "Dog" "Animal" :=
    .single (extends_herd_iff.2 ⟨rfl, rfl⟩)
  have hno : ∀ mid, ReflTransGen (Extends herd.structuredTypes) "Dog" mid →
      TransGen (Extends herd.structuredTypes) mid "Animal" →
        ¬ herd.ContributesField "Friends" mid := by
    intro mid _ hmid
    obtain ⟨_, hext, _⟩ := TransGen.head'_iff.1 hmid
    exact (extends_herd_iff.1 hext).1 ▸ not_contributes_herd
  obtain ⟨f', hf', _, hkind, hother, hlists⟩ :=
    options_of_build wellNamed_herd (fun _ h => by cases h) hr hway ho hbase hno hg
  cases hf.symm.trans hf'
  have hlist : g.ListsEntities := by
    by_contra hnot
    rw [hother hnot, hall] at hnone
    cases hnone
  exact ⟨r, hr, key, o, f, ho, hf, hkind.trans hlist.1, (hlists hlist).1⟩

end Registry

end ODataGraph
