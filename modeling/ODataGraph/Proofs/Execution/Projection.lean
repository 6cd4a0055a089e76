import ODataGraph.Proofs.Execution.RelativeRequest

/-!
A request names the properties that are selected. Nothing else of an object that comes back is read:
what is selected is resolved alike on the object and on what is left of it with these properties
only. No properties are named where a selection would be lost by that.
-/

namespace ODataGraph

open Csdl (Extends)
open Relation (TransGen)

namespace Json.Members

/-- Annotations stand in an object whether or not they are asked for. -/
def keeps (properties : List String) (name : String) : Bool :=
  properties.contains name || name.toList.head? == some '@'

/-- What is left of an object of which only some properties were asked for. -/
def project (properties : List String) (members : Members) : Members :=
  members.filter fun m => keeps properties m.1

variable {properties : List String} {members : Members} {name : String}

theorem get?_project : (members.project properties).get? name =
    if keeps properties name then members.get? name else none := by
  rw [project, get?, get?]
  induction members with
  | nil => simp
  | cons m rest ih =>
    obtain ⟨n, v⟩ := m
    rw [List.filter_cons]
    by_cases hn : name = n
    · subst hn
      cases hkeeps : keeps properties name with
      | true => simp
      | false => simpa [hkeeps] using ih
    · have hne := beq_false_of_ne hn
      rw [List.lookup_cons, hne]
      split
      · rw [List.lookup_cons, hne, ih]
      · exact ih

theorem get?_project_of_mem (h : name ∈ properties) :
    (members.project properties).get? name = members.get? name := by
  have hkeeps : keeps properties name = true := by simp [keeps, h]
  rw [get?_project, if_pos hkeeps]

theorem get?_project_eq_none (h : members.get? name = none) :
    (members.project properties).get? name = none := by
  rw [get?_project, h, ite_self]

end Json.Members

namespace Entity

variable {r : Registry} {declared : String} {data : Json.Members} {origin : Option String}
variable {properties : List String}

/-- The type and the place of an object depend on its annotations and on its id. -/
theorem materialize_project (hid : "id" ∈ properties) :
    materialize r declared (data.project properties) origin =
      (materialize r declared data origin).map fun e =>
        { e with data := data.project properties } := by
  have hmember : Json.Members.keeps properties typeMember = true := by
    have hhead : (typeMember.toList.head? == some '@') = true := by decide
    rw [Json.Members.keeps, hhead, Bool.or_true]
  have htype : typeOf r declared (data.project properties) = typeOf r declared data := by
    rw [typeOf, typeOf, Json.Members.get?_project, if_pos hmember]
  have hurl : ∀ name, canonicalUrlOf r name (data.project properties) =
      canonicalUrlOf r name data := by
    intro name
    rw [canonicalUrlOf, canonicalUrlOf, Json.Members.get?_project_of_mem hid]
  rw [materialize, materialize, htype]
  cases typeOf r declared data with
  | error error => rfl
  | ok key =>
    dsimp only [bind, Except.bind]
    split
    · simp only [hurl]
      rfl
    · rfl

end Entity

/-- Where an entity holds the same under the name of a field, the field has the same source. -/
theorem Field.source_congr {service : Service} {f : Field} {name : String} {e e' : Entity}
    (hurl : e.resourceUrl = e'.resourceUrl)
    (hdata : f.kind = .property ∨ f.kind = .navigation → e.data.get? name = e'.data.get? name) :
    f.source service name (.entity e) = f.source service name (.entity e') := by
  have hsource : ∀ call, e.source call = e'.source call := by
    intro call
    rw [Entity.source, Entity.source, hurl]
  cases hkind : f.kind with
  | property => simp only [Field.source, hkind, hdata (.inl hkind)]
  | navigation => simp only [Field.source, hkind, hdata (.inr hkind), hsource]
  | _ => simp only [Field.source, hkind, hsource]

namespace Execution

variable {x : Execution} {o : ObjectType} {s : Selection} {fields : List Selection}

theorem fieldValue_congr {p p' : Parent} {path : Path} {onEntity : Entity → Path → Resolver Json}
    (h : s.name ≠ typenameField → ∀ f, o.fields.get? s.name = some f →
      f.source x.service s.name p = f.source x.service s.name p') :
    x.fieldValue o p s path onEntity = x.fieldValue o p' s path onEntity := by
  by_cases hname : s.name = typenameField
  · rw [fieldValue, fieldValue, if_pos hname, if_pos hname]
  · cases hf : o.fields.get? s.name with
    | none => simp only [fieldValue, hf]
    | some f => rw [fieldValue_eq hname hf, fieldValue_eq hname hf, h hname f hf]

theorem resolveFields_congr {p p' : Parent} {path : Path} (hselects : p.selects = p'.selects)
    (h : ∀ s ∈ fields, p.selects s = true → s.name ≠ typenameField →
      ∀ f, o.fields.get? s.name = some f →
        f.source x.service s.name p = f.source x.service s.name p') :
    x.resolveFields o p path fields = x.resolveFields o p' path fields := by
  induction fields with
  | nil => rfl
  | cons s rest ih =>
    have hrest := ih fun t ht => h t (List.mem_cons_of_mem _ ht)
    rw [resolveFields, resolveFields, ← hselects, hrest]
    split
    · rename_i hs
      rw [resolveField_eq, resolveField_eq, fieldValue_congr (h s List.mem_cons_self hs)]
    · rfl

/-- Entities of one type on which all selected fields have the same source are resolved alike. -/
theorem resolveEntity_congr {e e' : Entity} {path : Path} (hkey : e.typeKey = e'.typeKey)
    (hname : e.typeName = e'.typeName)
    (h : ∀ o, x.registry.object? e.typeKey = some o → ∀ s ∈ fields, s.name ≠ typenameField →
      ∀ f, o.fields.get? s.name = some f →
        f.source x.service s.name (.entity e) = f.source x.service s.name (.entity e')) :
    x.resolveEntity fields e path = x.resolveEntity fields e' path := by
  have hselects : (Parent.entity e).selects = (Parent.entity e').selects := by
    funext s
    rw [Parent.selects, Parent.selects, hkey]
  rw [resolveEntity, resolveEntity, ← hkey, ← hname]
  cases ho : x.registry.object? e.typeKey with
  | none => rfl
  | some o =>
    simp only [resolveObject]
    rw [resolveFields_congr hselects fun s hs _ => h o ho s hs]

/-- Properties are named only if each selected field is one of the type's own object. They include
the fields that are properties there. -/
theorem exists_of_selectList {r : Registry} {key : String} {listed : List String}
    (h : selectList r key fields = some listed) :
    ∃ objectKey o, r.concreteObject? key = some (objectKey, o) ∧ o.selectable = true ∧
      ∀ s ∈ fields, s.name ≠ typenameField → ∃ f, o.fields.get? s.name = some f ∧
        (f.kind = .property → s.name ∈ listed) := by
  rw [selectList] at h
  simp only [Option.bind_eq_bind, Option.bind_eq_some_iff] at h
  obtain ⟨⟨objectKey, o⟩, ho, h⟩ := h
  by_cases hnone : (!o.selectable || fields.isEmpty) = true
  · rw [if_pos hnone] at h
    cases h
  · rw [if_neg hnone, Option.bind_eq_some_iff] at h
    obtain ⟨definitions, hdefinitions, h⟩ := h
    cases h
    rw [Bool.or_eq_true, not_or, Bool.not_eq_true, Bool.not_eq_false'] at hnone
    refine ⟨objectKey, o, ho, hnone.1, ?_⟩
    intro s hs hname
    have hnamed : s ∈ fields.filter (·.name != typenameField) :=
      List.mem_filter.2 ⟨hs, bne_iff_ne.2 hname⟩
    obtain ⟨⟨name, f⟩, hmem, hf⟩ := exists_mem_of_mapM hdefinitions hnamed
    obtain ⟨f', hf', heq⟩ := Option.map_eq_some_iff.1 hf
    cases heq
    refine ⟨f, hf', ?_⟩
    intro hproperty
    have hkept : (s.name, f) ∈ definitions.filter (·.2.kind = .property) :=
      List.mem_filter.2 ⟨hmem, decide_eq_true hproperty⟩
    exact List.mem_map_of_mem (f := Prod.fst) hkept

end Execution

namespace Standing

variable {x : Execution} {service : Service} {d : Csdl.Document} {h : Hierarchy} {F : FieldMap}
variable {st : Standing} {listed : List String}

/-- The object is typed, and resolved with what is selected on it. -/
def resolve (x : Execution) (st : Standing) : Resolver Json := do
  x.resolveEntity st.fields (← Resolver.lift (st.entity x.registry)) st.path

/-- The object with some of its properties only. -/
def project (properties : List String) (st : Standing) : Standing :=
  { st with data := st.data.project properties }

/-- No navigation property of the declared type has its value in the object. -/
def LacksNavigation (r : Registry) (st : Standing) : Prop :=
  ∀ objectKey o name f, r.concreteObject? st.declared = some (objectKey, o) →
    o.fields.get? name = some f → f.kind = .navigation → st.data.get? name = none

/-- What is read of an object are the properties that are named for its declared type, also if it is
of a subtype: a field is of one kind on both. -/
theorem resolve_project (hs : x.registry.Settled service d h F) (hk : d.KeepsFieldKinds service)
    (hselect : Execution.selectList x.registry st.declared st.fields = some listed)
    (hnames : st.NamesBelow x.registry d) (hlacks : st.LacksNavigation x.registry) :
    (st.project (Url.selected listed)).resolve x = st.resolve x := by
  obtain ⟨objectKey, o, ho, _, hfields⟩ := Execution.exists_of_selectList hselect
  rw [resolve, resolve, entity, entity, project]
  dsimp only
  rw [Entity.materialize_project (Url.id_mem_selected listed)]
  cases he : Entity.materialize x.registry st.declared st.data st.origin with
  | error error => rfl
  | ok e =>
    obtain ⟨_, hdata, _⟩ := Entity.originUrl_of_materialize he
    rw [Except.map, Resolver.lift_ok, Resolver.lift_ok, pure_bind, pure_bind]
    apply Execution.resolveEntity_congr
    · rfl
    · rfl
    intro o' ho' s hmem hname f hf
    obtain ⟨g, hg, hlisted⟩ := hfields s hmem hname
    obtain ⟨o'', f', ho'', hf', hkind⟩ :=
      hs.exists_view_of_mem hk (mem_possibleTypes hs hnames he) ho hg
    cases ho''.symm.trans ho'
    cases hf'.symm.trans hf
    have hkind : f.kind = g.kind := hkind
    apply Field.source_congr
    · rfl
    rw [hdata]
    rintro (hproperty | hnavigation)
    · apply Json.Members.get?_project_of_mem
      exact Url.mem_selected (hlisted (hkind ▸ hproperty))
    · have hnone := hlacks objectKey o s.name g ho hg (hkind ▸ hnavigation)
      rw [hnone]
      exact Json.Members.get?_project_eq_none hnone

end Standing

namespace Execution

variable {x : Execution} {service : Service} {d : Csdl.Document} {c : Call}

/-- The request for an entity set or a singleton may name properties. Then whatever is selected on
an object that comes back is resolved alike if it comes back with these properties only: to the same
value, with the same errors and after the same requests. It names none if the type does not allow
it, or if a selected field is not one of the type's own object. -/
theorem resolve_project_of_build (hd : d.WellNamed) (hk : d.KeepsFieldKinds service)
    (hr : Registry.build service d = .ok x.registry) (hc : x.Calls x.registry.queryRoot .root c)
    (harguments : ∀ name ∈ c.selection.arguments.keys, name ∈ c.field.arguments.keys) :
    (∀ value, Url.HasOption c.resource (c.url x.registry) ("$select", value) →
      ∃ properties, Url.readSelection? ("$select", value) = some properties ∧
        "id" ∈ properties ∧
        ∀ st : Standing, c.field.type.key? = some st.declared → st.fields = c.selection.fields →
          st.NamesBelow x.registry d → st.LacksNavigation x.registry →
          (st.project properties).resolve x = st.resolve x) ∧
    ((∀ key objectKey o, c.field.type.key? = some key →
        x.registry.concreteObject? key = some (objectKey, o) →
        o.selectable = false ∨
          ∃ s ∈ c.selection.fields, s.name ≠ typenameField ∧ o.fields.get? s.name = none) →
      ∀ value, ¬ Url.HasOption c.resource (c.url x.registry) ("$select", value)) := by
  have hselect : "_select" ∉ c.selection.arguments.keys := fun hmem =>
    Registry.select_not_mem_arguments hr hc.field (harguments _ hmem)
  have hlisted : ∀ value, Url.HasOption c.resource (c.url x.registry) ("$select", value) →
      ∃ key listed, c.field.type.key? = some key ∧
        selectList x.registry key c.selection.fields = some listed ∧
        Url.readSelection? ("$select", value) = some (Url.selected listed) := by
    intro value hoption
    rw [Call.url_eq] at hoption
    obtain ⟨listed, hlisted, hread⟩ := Url.exists_selected_of_hasOption _ _ _ _ _ hselect hoption
    rw [Call.select] at hlisted
    split at hlisted
    · obtain ⟨key, hkey, hlisted⟩ := Option.bind_eq_some_iff.1 hlisted
      exact ⟨key, listed, (Option.filter_eq_some_iff.1 hkey).1, hlisted, hread⟩
    · cases hlisted
  constructor
  · intro value hoption
    obtain ⟨key, listed, hkey, hlisted, hread⟩ := hlisted value hoption
    refine ⟨Url.selected listed, hread, Url.id_mem_selected listed, ?_⟩
    intro st hdeclared hfields hnames hlacks
    cases hkey.symm.trans hdeclared
    obtain ⟨h, F, hs⟩ := Registry.exists_settled_of_build hd hr
    rw [← hfields] at hlisted
    exact Standing.resolve_project hs hk hlisted hnames hlacks
  · intro hlost value hoption
    obtain ⟨key, listed, hkey, hlisted, _⟩ := hlisted value hoption
    obtain ⟨objectKey, o, ho, hselectable, hfields⟩ := exists_of_selectList hlisted
    rcases hlost key objectKey o hkey ho with hnot | ⟨s, hs, hname, hnone⟩
    · cases hselectable.symm.trans hnot
    · obtain ⟨f, hf, _⟩ := hfields s hs hname
      cases hnone.symm.trans hf

end Execution

/-! A guard dog that is a puppy. -/

namespace Kennel

def guarded : Csdl.Document :=
  { Registry.kennel with container := [{ kind := .singleton, name := "Guard", type := "Zoo.Dog" }] }

def guard : Selection where
  responseKey := "Guard"
  name := "Guard"
  fields := [{ responseKey := "Breed", name := "Breed" }]

def poodle : Json.Members :=
  [("@odata.type", .string "#Zoo.Puppy"), ("Breed", .string "Poodle"), ("Age", .string "1")]

theorem wellNamed_guarded : guarded.WellNamed where
  nodup := by decide
  not_isBaseKey := by
    simp only [← isBaseKey_iff]
    decide

theorem keepsFieldKinds : guarded.KeepsFieldKinds service := by
  intro name base hway field f g hf hg
  exact congrArg Prod.snd (keeps_core name base hway field f g hf hg)

def guardedRegistry : Registry := (Registry.build service guarded).toOption.getD registry

theorem build_guarded : Registry.build service guarded = .ok guardedRegistry := by rfl

def guardField : Field := { type := .named "Dog", kind := .singleton }

def guardCall : Execution.Call := ⟨guard, guardField, service.baseUrl, .segment⟩

/-- What the service has of the puppy that is its guard. -/
def guardStanding (origin : Option String) (path : Path) : Standing :=
  ⟨"Dog", poodle, origin, path, guard.fields⟩

theorem namesBelow_guard (origin : Option String) (path : Path) :
    (guardStanding origin path).NamesBelow guardedRegistry guarded := by
  intro odataType h
  cases h
  have hkey : Entity.discriminatorKey "#Zoo.Puppy" = "Puppy" := by rfl
  rw [hkey]
  have hDog : Extends guarded.structuredTypes "Puppy" "Dog" :=
    Registry.extends_kennel_iff.2 (.inr ⟨rfl, rfl⟩)
  exact .inr (.inr (.single hDog))

/-- Dogs have no navigation properties. -/
theorem lacksNavigation_guard (origin : Option String) (path : Path) :
    (guardStanding origin path).LacksNavigation guardedRegistry := by
  intro objectKey o name f ho hf hnavigation
  have hnone : (match guardedRegistry.concreteObject? "Dog" with
      | some (_, o) => o.fields.values.all fun f => decide (f.kind ≠ .navigation)
      | none => false) = true := by decide
  rw [show guardedRegistry.concreteObject? "Dog" = some (objectKey, o) from ho] at hnone
  have hkind := List.all_eq_true.1 hnone f (OrderedMap.mem_values_of_get? hf)
  exact absurd hnavigation (of_decide_eq_true hkind)

end Kennel

/-- Of the guard its breed is asked for. Its age is not read. -/
theorem resolve_project_of_guard : ∃ x : Execution, Kennel.guarded.WellNamed ∧
    Kennel.guarded.KeepsFieldKinds Kennel.service ∧
    Registry.build Kennel.service Kennel.guarded = .ok x.registry ∧
    x.Calls x.registry.queryRoot .root Kennel.guardCall ∧
    Kennel.guardCall.url x.registry = "http://zoo.test/odata/Guard?$select=Breed,id" ∧
    Url.HasOption Kennel.guardCall.resource (Kennel.guardCall.url x.registry)
      ("$select", "Breed,id") ∧
    ∀ origin path, ((Kennel.guardStanding origin path).project ["Breed", "id"]).resolve x =
      (Kennel.guardStanding origin path).resolve x := by
  let x : Execution :=
    { registry := Kennel.guardedRegistry, client := fun _ _ => .error .connection }
  have hcalls : x.Calls x.registry.queryRoot .root Kennel.guardCall :=
    ⟨by decide, by rfl, rfl⟩
  have hurl : Kennel.guardCall.url x.registry = "http://zoo.test/odata/Guard?$select=Breed,id" := by
    decide +kernel
  have hoption : Url.HasOption Kennel.guardCall.resource (Kennel.guardCall.url x.registry)
      ("$select", "Breed,id") := by
    rw [Execution.Call.url_eq, Url.hasOption_under_iff]
    decide +kernel
  have harguments : ∀ name ∈ Kennel.guardCall.selection.arguments.keys,
      name ∈ Kennel.guardCall.field.arguments.keys := nofun
  obtain ⟨hselected, _⟩ := Execution.resolve_project_of_build Kennel.wellNamed_guarded
    Kennel.keepsFieldKinds Kennel.build_guarded hcalls harguments
  obtain ⟨properties, hread, _, hresolve⟩ := hselected _ hoption
  have hproperties : Url.readSelection? ("$select", "Breed,id") = some ["Breed", "id"] := by
    decide
  cases hread.symm.trans hproperties
  refine ⟨x, Kennel.wellNamed_guarded, Kennel.keepsFieldKinds, Kennel.build_guarded, hcalls, hurl,
    hoption, ?_⟩
  intro origin path
  exact hresolve _ rfl rfl (Kennel.namesBelow_guard origin path)
    (Kennel.lacksNavigation_guard origin path)

end ODataGraph
