import ODataGraph.Proofs.Registry.RootField
import ODataGraph.Proofs.Registry.TypeName
import ODataGraph.Proofs.Registry.Variant

/-!
What annotations of types amount to in a registry. They are looked up by the key of an object, of
which an ending like that of a base variant is taken off, so that they reach the type that they are
about unless that type itself has a name with this ending.
-/

namespace ODataGraph

open Csdl (AppliedTerm Target)

namespace Csdl.AnnotationTargets

/-- The annotations of a property of a type, or of the type itself, in the order of the document.
The case of the type's name does not count. -/
def about (ts : AnnotationTargets) (target : Target) : List AppliedTerm :=
  (ts.entries.filter (·.1 = ⟨Text.lowerCase target.type, target.property⟩)).map Prod.snd

/-- Grouped by properties, annotations keep their order. -/
theorem get?_foldl_group (entries : List (Target × AppliedTerm))
    (m : OrderedMap String (List AppliedTerm)) (property : String) :
    (entries.foldl (fun m (target, a) =>
      m.insert target.property ((m.get? target.property).getD [] ++ [a])) m).get? property =
      if entries.filter (·.1.property = property) = [] then m.get? property
      else some ((m.get? property).getD [] ++
        (entries.filter (·.1.property = property)).map Prod.snd) := by
  induction entries generalizing m with
  | nil => rfl
  | cons e rest ih =>
    rw [List.foldl_cons, ih, OrderedMap.get?_insert]
    by_cases hproperty : e.1.property = property
    · subst hproperty
      simp only [if_true, decide_true, List.filter_cons_of_pos, reduceCtorEq, if_false,
        List.map_cons, Option.getD_some, List.append_assoc, List.singleton_append]
      split
      · rename_i hnone
        simp [hnone]
      · rfl
    · rw [if_neg (Ne.symm hproperty), List.filter_cons_of_neg (by simpa using hproperty)]

theorem get?_ofType (ts : AnnotationTargets) (name property : String) :
    (ts.ofType name).get? property =
      if ts.about ⟨name, property⟩ = [] then none else some (ts.about ⟨name, property⟩) := by
  have habout : (ts.entries.filter (·.1.type == Text.lowerCase name)).filter
      (·.1.property = property) =
        ts.entries.filter (·.1 = ⟨Text.lowerCase name, property⟩) := by
    rw [List.filter_filter]
    refine List.filter_congr fun e _ => ?_
    obtain ⟨⟨type, property'⟩, a⟩ := e
    rw [Bool.eq_iff_iff]
    simp [and_comm]
  rw [ofType, get?_foldl_group, habout]
  simp only [about, List.map_eq_nil_iff]
  rfl

theorem ofTarget_eq_about (ts : AnnotationTargets) (name property : String) :
    ts.ofTarget name property = ts.about ⟨name, property⟩ := by
  rw [ofTarget, get?_ofType]
  split
  · rename_i hnone
    rw [hnone]
    rfl
  · rfl

end Csdl.AnnotationTargets

namespace Csdl.Document

/-- What the annotations say that are recorded for a type itself. -/
def capabilities (d : Csdl.Document) (name : String) : Capabilities :=
  .ofAnnotations (d.annotations.about ⟨name, ""⟩)

theorem typeCapabilities_of_not_isBaseKey (d : Csdl.Document) {key : String}
    (h : ¬ IsBaseKey key) : d.typeCapabilities key = d.capabilities key := by
  rw [typeCapabilities, annotatedName, dropEnd?_eq_none h, AnnotationTargets.ofTarget_eq_about]
  rfl

theorem typeCapabilities_baseKey (d : Csdl.Document) (name : String) :
    d.typeCapabilities (baseKey name) = d.capabilities name := by
  rw [typeCapabilities, annotatedName, dropEnd?_baseEnding.2 rfl,
    AnnotationTargets.ofTarget_eq_about]
  rfl

end Csdl.Document

/-- The object is described, and gives and takes, as annotations say. Where they say nothing it can
be expanded and selected from. -/
structure ObjectType.Shows (o : ObjectType) (cs : Capabilities) : Prop where
  description : o.description = cs.fullDescription
  expandable : o.expandable = (cs.stated .expand).getD true
  selectable : o.selectable = (cs.stated .select).getD true
  arguments : o.arguments = cs.arguments

namespace Registry

variable {service : Service} {d : Csdl.Document} {r : Registry} {key name : String}
  {o : ObjectType} {cs : Capabilities}

/-- The object of a type and the fields that list its entity sets are as annotations say. -/
structure Shows (r : Registry) (name : String) (cs : Capabilities) : Prop where
  object : ∀ key o, r.concreteObject? name = some (key, o) → o.Shows cs
  entitySet : ∀ field f, r.queryRoot.fields.get? field = some f → f.kind = .entitySet →
    f.type.key? = some name → f.arguments = cs.arguments

/-- Every object shows the annotations that are recorded under its key, whatever that is. -/
theorem shows_typeCapabilities (hr : build service d = .ok r)
    (ho : r.get? key = some (.object o)) : o.Shows (d.typeCapabilities key) := by
  obtain ⟨h, _, hget⟩ := exists_get?_of_build hr
  have hkeeps : ∀ a ∈ (none : Option Augmentation), a.KeepsShape := nofun
  obtain ⟨o₀, ho₀, hannotate⟩ := exists_object_of_get? hkeeps (hget key) ho
  have hmade : o₀ = { ObjectType.bare service key with fields := o₀.fields } :=
    Types.madeFor_ofDocument service d h key _ ho₀
  cases hannotate
  refine ⟨rfl, ?_, ?_, rfl⟩
  · have hexpandable : o₀.expandable = true := congrArg ObjectType.expandable hmade
    simp only [ObjectType.annotate, hexpandable]
  · have hselectable : o₀.selectable = true := congrArg ObjectType.selectable hmade
    simp only [ObjectType.annotate, hselectable]

theorem listArguments_eq (d : Csdl.Document) (r : Registry) (name : String) :
    listArguments d r.types name = match r.concreteObject? name with
      | some (_, o) => o.arguments
      | none => (d.typeCapabilities name).arguments := by
  have hobject : r.types.object? name = (r.concreteObject? name).map Prod.snd := by
    rw [Types.object?, concreteObject?]
    cases r.types.fieldsKey? name with
    | none => rfl
    | some key =>
      simp only [Option.bind_eq_bind, Option.bind_some, object?, get?]
      cases (r.types.get? key).bind Descriptor.object? <;> rfl
  rw [listArguments, hobject]
  cases r.concreteObject? name <;> rfl

theorem arguments_of_entitySet (hr : build service d = .ok r) {field : String} {f : Field}
    (hf : r.queryRoot.fields.get? field = some f) (hkind : f.kind = .entitySet)
    (hkey : f.type.key? = some name) : f.arguments = listArguments d r.types name := by
  obtain ⟨_, _, hmade⟩ := exists_madeFrom_of_build hr
  rw [hmade.queryRoot] at hf
  refine Roots.all_ofContainer (P := fun f => f.kind = .entitySet → f.type.key? = some name →
    f.arguments = listArguments d r.types name) ?_ ?_ hf hkind hkey
  · intro key _ hkind
    cases hkind
  · intro key _ _ hkey
    cases Option.some.inj hkey
    rfl

/-- As long as what is recorded under the key of a type's object is `cs`, or under the type's own
name if there is no object, both the object and the entity sets show it. -/
theorem shows_of_typeCapabilities (hr : build service d = .ok r)
    (hobject : ∀ key o, r.concreteObject? name = some (key, o) → d.typeCapabilities key = cs)
    (hnone : r.concreteObject? name = none → d.typeCapabilities name = cs) : r.Shows name cs where
  object key o ho := by
    rw [← hobject key o ho]
    exact shows_typeCapabilities hr (object?_eq_some_iff.1 (concreteObject?_eq_some_iff.1 ho).2)
  entitySet field f hf hkind hkey := by
    rw [arguments_of_entitySet hr hf hkind hkey, listArguments_eq]
    split
    · rename_i key o ho
      have ho' := object?_eq_some_iff.1 (concreteObject?_eq_some_iff.1 ho).2
      rw [(shows_typeCapabilities hr ho').arguments, hobject key o ho]
    · rename_i ho
      rw [hnone ho]

/-- A type whose name has no ending like a base variant, or whose object is its own base variant,
shows what is recorded for it. Another name with that ending shows what is recorded for the name
without it. -/
theorem shows_of_build (hr : build service d = .ok r) (name : String) :
    (¬ IsBaseKey name ∨ (∃ o, r.concreteObject? name = some (baseKey name, o)) →
      r.Shows name (d.capabilities name)) ∧
    ∀ start, name = baseKey start → (∀ o, r.concreteObject? name ≠ some (baseKey name, o)) →
      r.Shows name (d.capabilities start) := by
  have hkey : ∀ key o, r.concreteObject? name = some (key, o) → key = name ∨ key = baseKey name :=
    fun key o ho => (exists_concreteObject?_iff.1 ⟨o, ho⟩).2.imp_right And.left
  constructor
  · rintro (hname | ⟨o, ho⟩)
    · refine shows_of_typeCapabilities hr (fun key o ho => ?_)
        fun _ => d.typeCapabilities_of_not_isBaseKey hname
      rcases hkey key o ho with rfl | rfl
      · exact d.typeCapabilities_of_not_isBaseKey hname
      · exact d.typeCapabilities_baseKey name
    · refine shows_of_typeCapabilities hr (fun key o' ho' => ?_) fun hnone => ?_
      · cases ho.symm.trans ho'
        exact d.typeCapabilities_baseKey name
      · cases ho.symm.trans hnone
  · rintro start rfl hvariant
    refine shows_of_typeCapabilities hr (fun key o ho => ?_)
      fun _ => d.typeCapabilities_baseKey start
    rcases hkey key o ho with rfl | rfl
    · exact d.typeCapabilities_baseKey start
    · exact absurd ho (hvariant o)

/-- An abstract type without fields that takes no filter, a type below it, and the set of both. -/
def pound : Csdl.Document where
  structuredTypes := [
    { name := "Animal", isAbstract := true },
    { name := "Dog", base := some "Zoo.Animal"
      members := [{ name := "Breed", type := "Edm.String" }] }]
  container := [{ kind := .entitySet, name := "Animals", type := "Zoo.Animal" }]
  annotations := ⟨[(⟨"animal", ""⟩,
    { term := "Org.OData.Capabilities.V1.FilterRestrictions"
      record := (∅ : OrderedMap String Csdl.PropertyValue).insert "Filterable"
        { attributes := (∅ : OrderedMap String String).insert "Bool" "false" } })]⟩

/-- The base variant of the union is left out. The set of the union still takes no filter. -/
theorem shows_of_pound : ∃ r, build ⟨"zoo", "http://zoo.test/odata"⟩ pound = .ok r ∧
    r.concreteObject? "Animal" = none ∧ ∃ f, r.queryRoot.fields.get? "Animals" = some f ∧
      f.arguments = (pound.capabilities "Animal").arguments ∧ "_filter" ∉ f.arguments.keys := by
  have hbuilds : (build ⟨"zoo", "http://zoo.test/odata"⟩ pound).toOption.map (fun r =>
      ((r.concreteObject? "Animal").isNone,
        (r.queryRoot.fields.get? "Animals").map fun f => (f.kind, f.type.key?))) =
        some (true, some (.entitySet, some "Animal")) := by
    decide
  have hfilter : "_filter" ∉ (pound.capabilities "Animal").arguments.keys := by decide
  have hname : ¬ IsBaseKey "Animal" := by
    rw [← isBaseKey_iff]
    decide
  cases hr : build ⟨"zoo", "http://zoo.test/odata"⟩ pound with
  | error error => rw [hr] at hbuilds; cases hbuilds
  | ok r =>
    rw [hr] at hbuilds
    obtain ⟨hnone, hfield⟩ := Prod.mk.inj (Option.some.inj hbuilds)
    obtain ⟨f, hf, hlists⟩ := Option.map_eq_some_iff.1 hfield
    obtain ⟨hkind, hkey⟩ := Prod.mk.inj hlists
    have harguments := ((shows_of_build hr "Animal").1 (.inl hname)).entitySet _ f hf hkind hkey
    exact ⟨r, rfl, Option.isNone_iff_eq_none.1 hnone, f, hf, harguments, harguments ▸ hfilter⟩

/-- Two types, of which one has the name that the other's base variant would have. Only this one is
described. -/
def labels : Csdl.Document where
  structuredTypes := [{ name := "Tag" }, { name := "Tag_Base" }]
  annotations := ⟨[(⟨"tag_base", ""⟩,
    { term := "Org.OData.Core.V1.Description"
      attributes := (∅ : OrderedMap String String).insert "String" "Where tags start" })]⟩

/-- The description does not reach the type, whose ending is taken for that of a base variant. -/
theorem not_forall_shows : ¬ ∀ service d r, build service d = .ok r →
    (d.typeNames.map Text.lowerCase).Nodup → ∀ name ∈ d.typeNames,
      r.Shows name (d.capabilities name) := by
  intro hshows
  have hbuilds : (build ⟨"zoo", "http://zoo.test/odata"⟩ labels).toOption.bind (fun r =>
      (r.concreteObject? "Tag_Base").map fun p => p.2.description) = some none := by
    decide
  have hrecorded : (labels.capabilities "Tag_Base").fullDescription = some "Where tags start" := by
    decide
  cases hr : build ⟨"zoo", "http://zoo.test/odata"⟩ labels with
  | error error => rw [hr] at hbuilds; cases hbuilds
  | ok r =>
    rw [hr] at hbuilds
    obtain ⟨⟨key, o⟩, ho, hnone⟩ := Option.map_eq_some_iff.1 hbuilds
    have hdescription := ((hshows _ _ _ hr (by decide) "Tag_Base" (by decide)).object
      key o ho).description
    rw [hnone, hrecorded] at hdescription
    cases hdescription

end Registry

end ODataGraph
