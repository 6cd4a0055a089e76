import Mathlib.Data.List.Pairwise
import ODataGraph.Proofs.Engine.QueryRoot
import ODataGraph.Proofs.Registry.TypeName
import ODataGraph.Proofs.Sdl.Definition

/-!
Which names a schema defines. The names of one service are its label with different endings, so that
two services only clash if the label of one goes on from that of the other and the rest of it comes
back in a key. Labels can also be what a root or a scalar is called.
-/

namespace ODataGraph

open Sdl (Definition)

/-- The names that the types and the roots of a service have. -/
def typeNames (label : String) (keys : List String) : List String :=
  keys.map (label ++ "_" ++ ·) ++ [label, label ++ "Mutations"]

/-- What follows the label in a name of a service. -/
inductive NameEnding (keys : List String) : String → Prop
  | query : NameEnding keys ""
  | mutation : NameEnding keys "Mutations"
  | type {key : String} (mem : key ∈ keys) : NameEnding keys ("_" ++ key)

/-- A name of the service with the second label is one of the first as well, because the second
label goes on from the first. -/
def Clash (label : String) (keys : List String) (label' : String) (keys' : List String) : Prop :=
  label' = label ++ "Mutations" ∨ ∃ rest, label' = label ++ "_" ++ rest ∧
    (rest ∈ keys ∨ rest ++ "Mutations" ∈ keys ∨ ∃ key ∈ keys', rest ++ "_" ++ key ∈ keys)

section

variable {label label' name rest : String} {keys keys' : List String}

theorem mem_typeNames_iff :
    name ∈ typeNames label keys ↔ ∃ ending, NameEnding keys ending ∧ name = label ++ ending := by
  rw [typeNames, List.mem_append, List.mem_map, List.mem_pair]
  constructor
  · rintro (⟨key, hkey, rfl⟩ | rfl | rfl)
    · exact ⟨_, .type hkey, String.append_assoc⟩
    · exact ⟨_, .query, String.append_empty.symm⟩
    · exact ⟨_, .mutation, rfl⟩
  · rintro ⟨_, hending, rfl⟩
    cases hending with
    | query => exact .inr (.inl String.append_empty)
    | mutation => exact .inr (.inr rfl)
    | type hkey => exact .inl ⟨_, hkey, String.append_assoc⟩

theorem ne_append_mutations (label : String) : label ≠ label ++ "Mutations" := fun heq => by
  simpa using congrArg String.toList heq

theorem nodup_typeNames (label : String) (h : keys.Nodup) : (typeNames label keys).Nodup := by
  let s : Service := ⟨label, ""⟩
  rw [typeNames, List.nodup_append]
  have hroots : [label, label ++ "Mutations"].Nodup := by
    simpa using ne_append_mutations label
  refine ⟨h.map fun _ _ heq => s.typeName_inj.1 heq, hroots, ?_⟩
  intro name hname root hroot
  obtain ⟨key, _, rfl⟩ := List.mem_map.1 hname
  rcases List.mem_pair.1 hroot with rfl | rfl
  · exact s.typeName_ne_label key
  · exact s.typeName_ne_mutations key

theorem exists_eq_of_append_eq {ending key : String} (hrest : rest ≠ "")
    (h : rest ++ ending = "_" ++ key) : ∃ tail, rest = "_" ++ tail ∧ key = tail ++ ending := by
  have hmark : "_".toList = ['_'] := rfl
  have hlist := congrArg String.toList h
  rw [String.toList_append, String.toList_append, hmark] at hlist
  cases hcs : rest.toList with
  | nil => exact absurd (String.toList_eq_nil_iff.1 hcs) hrest
  | cons c cs =>
    rw [hcs] at hlist
    obtain ⟨rfl, hkey⟩ := List.cons.inj hlist
    refine ⟨String.ofList cs, String.toList_inj.1 ?_, String.toList_inj.1 ?_⟩
    · simp [hcs]
    · simpa using hkey.symm

/-- Where two endings meet because one label goes on from the other, there is a clash. -/
theorem clash_of_nameEnding {ending : String} (h : NameEnding keys (rest ++ ending))
    (h' : NameEnding keys' ending) (hrest : rest ≠ "") :
    Clash label keys (label ++ rest) keys' := by
  generalize hwhole : rest ++ ending = whole at h
  cases h with
  | query => exact absurd (String.append_eq_empty_iff.1 hwhole).1 hrest
  | mutation =>
    cases h' with
    | query =>
      rw [String.append_empty] at hwhole
      exact .inl (congrArg (label ++ ·) hwhole)
    | mutation => exact absurd ((String.append_left_inj "Mutations").1 hwhole) hrest
    | type _ =>
      -- the ending of a type holds an underscore, and that of a mutation root none
      have hmark : '_' ∈ "Mutations".toList := by
        rw [← hwhole]
        simp
      exact absurd hmark (by decide)
  | type hkey =>
    obtain ⟨tail, rfl, rfl⟩ := exists_eq_of_append_eq hrest hwhole
    refine .inr ⟨tail, String.append_assoc.symm, ?_⟩
    cases h' with
    | query =>
      rw [String.append_empty] at hkey
      exact .inl hkey
    | mutation => exact .inr (.inl hkey)
    | type hkey' => exact .inr (.inr ⟨_, hkey', String.append_assoc ▸ hkey⟩)

theorem exists_of_clash (h : Clash label keys label' keys') :
    ∃ name ∈ typeNames label keys, name ∈ typeNames label' keys' := by
  simp only [mem_typeNames_iff]
  rcases h with rfl | ⟨rest, rfl, hrest | hrest | ⟨key, hkey, hrest⟩⟩
  · exact ⟨_, ⟨_, .mutation, rfl⟩, _, .query, String.append_empty.symm⟩
  · exact ⟨_, ⟨_, .type hrest, String.append_assoc⟩, _, .query, String.append_empty.symm⟩
  · exact ⟨_, ⟨_, .type hrest, by simp only [String.append_assoc]⟩, _, .mutation, rfl⟩
  · exact ⟨_, ⟨_, .type hrest, by simp only [String.append_assoc]⟩, _, .type hkey, rfl⟩

/-- Services with different labels have no name in common unless they clash, in one order or the
other. -/
theorem disjoint_typeNames_iff (hne : label ≠ label') :
    (typeNames label keys).Disjoint (typeNames label' keys') ↔
      ¬ Clash label keys label' keys' ∧ ¬ Clash label' keys' label keys := by
  rw [List.disjoint_left]
  constructor
  · intro h
    constructor
    · intro hclash
      obtain ⟨name, hname, hname'⟩ := exists_of_clash hclash
      exact h hname hname'
    · intro hclash
      obtain ⟨name, hname', hname⟩ := exists_of_clash hclash
      exact h hname hname'
  · rintro ⟨hclash, hclash'⟩ name hname hname'
    obtain ⟨ending, hending, rfl⟩ := mem_typeNames_iff.1 hname
    obtain ⟨ending', hending', heq⟩ := mem_typeNames_iff.1 hname'
    have hlist := congrArg String.toList heq
    rw [String.toList_append, String.toList_append, List.append_eq_append_iff] at hlist
    -- one of the two labels goes on from the other
    rcases hlist with ⟨cs, hlabel, hcs⟩ | ⟨cs, hlabel, hcs⟩
    · obtain ⟨rest, rfl⟩ : ∃ rest, cs = rest.toList := ⟨String.ofList cs, by simp⟩
      rw [← String.toList_append, String.toList_inj] at hlabel hcs
      subst hlabel hcs
      have hrest : rest ≠ "" := fun h => hne (h ▸ String.append_empty.symm)
      exact hclash (clash_of_nameEnding hending hending' hrest)
    · obtain ⟨rest, rfl⟩ : ∃ rest, cs = rest.toList := ⟨String.ofList cs, by simp⟩
      rw [← String.toList_append, String.toList_inj] at hlabel hcs
      subst hlabel hcs
      have hrest : rest ≠ "" := fun h => hne (h ▸ String.append_empty)
      exact hclash' (clash_of_nameEnding hending' hending hrest)

/-- A name without underscores that does not end like a mutation root can only be a label. -/
theorem mem_typeNames_iff_of_plain (hmark : '_' ∉ name.toList)
    (hmutation : ¬ "Mutations".toList <:+ name.toList) :
    name ∈ typeNames label keys ↔ name = label := by
  rw [mem_typeNames_iff]
  constructor
  · rintro ⟨_, hending, rfl⟩
    cases hending with
    | query => exact String.append_empty
    | mutation => exact absurd (by simp) hmutation
    | type _ => exact absurd (by simp) hmark
  · rintro rfl
    exact ⟨_, .query, String.append_empty.symm⟩

end

theorem Scalar.ofName?_name (s : Scalar) : ofName? s.name = some s := by
  cases s <;> decide

theorem Scalar.eq_of_name {s t : Scalar} (h : s.name = t.name) : s = t := by
  have hfound := congrArg ofName? h
  rw [ofName?_name, ofName?_name] at hfound
  exact Option.some.inj hfound

/-- Scalars are not called like anything of a service but its label. -/
theorem Scalar.plain_name (s : Scalar) :
    '_' ∉ s.name.toList ∧ ¬ "Mutations".toList <:+ s.name.toList := by
  cases s <;> decide

theorem RootKind.plain_typeName (kind : RootKind) :
    '_' ∉ kind.typeName.toList ∧ ¬ "Mutations".toList <:+ kind.typeName.toList := by
  cases kind <;> decide

/-- The host does not rename types. -/
def Augmentation.KeepsNames (a : Augmentation) : Prop := ∀ t, (a t).name = t.name

namespace Registry

variable {service : Service} {d : Csdl.Document} {augmentation : Option Augmentation} {r : Registry}

theorem name_augmentRoot {a : Augmentation} (ha : a.KeepsNames) (root : ObjectType) :
    (augmentRoot a root).name = root.name := by
  rw [augmentRoot]
  cases hroot : a (.object root) with
  | object o =>
    have hname := ha (.object root)
    rw [hroot] at hname
    exact hname
  | enum e => rfl
  | union u => rfl

theorem map_name_typeDefinitions (r : Registry) : r.typeDefinitions.map Definition.name =
    r.types.values.map Descriptor.name ++ [r.queryRoot.name, r.mutationRoot.name] := by
  rw [typeDefinitions, List.map_map, List.map_append]
  rfl

/-- The names that a registry defines are made from its label and its keys. -/
theorem typeNames_of_build (ha : ∀ a ∈ augmentation, a.KeepsNames)
    (hr : build service d augmentation = .ok r) :
    r.typeDefinitions.map Definition.name = typeNames service.label r.types.keys := by
  have hplain : ∀ r, build service d = .ok r →
      r.typeDefinitions.map Definition.name = typeNames service.label r.types.keys := by
    intro r hr
    obtain ⟨hquery, hmutation⟩ := roots_of_build hr
    rw [map_name_typeDefinitions, typeNames, hquery, hmutation, OrderedMap.values, OrderedMap.keys,
      List.map_map, List.map_map]
    refine congrArg (· ++ _) (List.map_congr_left fun entry hentry => ?_)
    exact name_of_get? hr (OrderedMap.mem_entries_iff.1 hentry)
  obtain ⟨r₀, hr₀, rfl⟩ := exists_plain_of_build hr
  have hbuild : build service d = .ok r₀ := by
    rw [build, hr₀]
    rfl
  cases augmentation with
  | none => exact hplain r₀ hbuild
  | some a =>
    have ha := ha a rfl
    have htypes : (r₀.augment a).types.values.map Descriptor.name =
        r₀.types.values.map Descriptor.name := by
      simp [augment, OrderedMap.values, OrderedMap.map, ha _]
    have hquery : (r₀.augment a).queryRoot.name = r₀.queryRoot.name := name_augmentRoot ha _
    have hmutation : (r₀.augment a).mutationRoot.name = r₀.mutationRoot.name :=
      name_augmentRoot ha _
    have hkeys : (r₀.augment a).types.keys = r₀.types.keys := OrderedMap.keys_map _ _
    change (r₀.augment a).typeDefinitions.map Definition.name =
      typeNames service.label (r₀.augment a).types.keys
    rw [map_name_typeDefinitions, htypes, hquery, hmutation, hkeys, ← hplain r₀ hbuild,
      map_name_typeDefinitions]

end Registry

namespace Engine

variable {b : Blueprint} {e : Engine} {built : List (ServiceDefinition × Registry)}

/-- The names that an engine defines besides those of its services. -/
def ownNames (e : Engine) : List String :=
  (e.referencedScalars.filter (!·.isBuiltin)).map Scalar.name ++
    [RootKind.query.typeName, RootKind.mutation.typeName]

/-- No name is defined twice, and none is that of a scalar that every schema has. -/
structure DefinesOnce (e : Engine) : Prop where
  nodup : (e.definitions.map Definition.name).Nodup
  fresh : ∀ s : Scalar, s.isBuiltin = true → s.name ∉ e.definitions.map Definition.name

/-- No label is what something else is called, and no two services clash. -/
structure LabelsApart (e : Engine) : Prop where
  root : ∀ label ∈ e.services.keys, ∀ kind : RootKind, label ≠ kind.typeName
  scalar : ∀ label ∈ e.services.keys, ∀ s : Scalar,
    (s.isBuiltin = true ∨ s ∈ e.referencedScalars) → label ≠ s.name
  services : ∀ p ∈ e.services.entries, ∀ q ∈ e.services.entries,
    ¬ Clash p.1 p.2.registry.types.keys q.1 q.2.registry.types.keys

theorem map_name_definitions (ha : ∀ d ∈ b.services, ∀ a ∈ d.augmentation, a.KeepsNames)
    (hm : b.Makes built e) : e.definitions.map Definition.name =
      e.ownNames ++ e.services.entries.flatMap fun p => typeNames p.1 p.2.registry.types.keys := by
  have hservices : ∀ p ∈ e.services.entries,
      p.2.registry.typeDefinitions.map Definition.name = typeNames p.1 p.2.registry.types.keys := by
    rw [hm.services, List.forall_mem_map]
    intro p hp
    obtain ⟨_, _, hr⟩ := bind_eq_ok_iff.1 (hm.compiled p hp)
    exact Registry.typeNames_of_build (ha p.1 (hm.definitions ▸ List.mem_map_of_mem hp)) hr
  rw [definitions, List.map_append, List.map_append, List.map_flatMap, List.map_map,
    OrderedMap.values, List.flatMap_map, List.flatMap_congr hservices]
  rfl

theorem nodup_ownNames (e : Engine) : e.ownNames.Nodup := by
  have hscalars : (e.referencedScalars.filter (!·.isBuiltin)).Nodup :=
    (Hierarchy.nodup_eraseDups _).filter _
  rw [ownNames, List.nodup_append]
  refine ⟨hscalars.map fun s t => Scalar.eq_of_name, by decide, ?_⟩
  intro name hname root hroot heq
  obtain ⟨s, _, rfl⟩ := List.mem_map.1 hname
  subst heq
  cases s <;> exact absurd hroot (by decide)

theorem mem_ownNames_iff {name : String} : name ∈ e.ownNames ↔
    (∃ s, s ∈ e.referencedScalars ∧ s.isBuiltin = false ∧ s.name = name) ∨
      ∃ kind : RootKind, kind.typeName = name := by
  have hroot : name ∈ [RootKind.query.typeName, RootKind.mutation.typeName] ↔
      ∃ kind : RootKind, kind.typeName = name := by
    rw [List.mem_pair]
    constructor
    · rintro (rfl | rfl)
      · exact ⟨.query, rfl⟩
      · exact ⟨.mutation, rfl⟩
    · rintro ⟨kind, rfl⟩
      cases kind
      · exact .inl rfl
      · exact .inr rfl
  rw [ownNames, List.mem_append, hroot]
  simp [and_assoc]

theorem name_not_mem_ownNames {s : Scalar} (hbuiltin : s.isBuiltin = true) :
    s.name ∉ e.ownNames := by
  intro hown
  rcases mem_ownNames_iff.1 hown with ⟨t, _, hbuiltin', heq⟩ | ⟨kind, heq⟩
  · rw [Scalar.eq_of_name heq, hbuiltin] at hbuiltin'
    cases hbuiltin'
  · cases s <;> cases kind <;> exact absurd heq (by decide)

/-- Names that no label goes on to are in the names of a service only if they are its label. -/
theorem mem_serviceNames_iff {name : String}
    (hplain : '_' ∉ name.toList ∧ ¬ "Mutations".toList <:+ name.toList) :
    (name ∈ e.services.entries.flatMap fun p => typeNames p.1 p.2.registry.types.keys) ↔
      name ∈ e.services.keys := by
  simp only [List.mem_flatMap, mem_typeNames_iff_of_plain hplain.1 hplain.2, OrderedMap.keys,
    List.mem_map, eq_comm]

theorem not_clash_self (label : String) (keys keys' : List String) :
    ¬ Clash label keys label keys' := by
  rintro (heq | ⟨rest, heq, _⟩)
  · exact ne_append_mutations label heq
  · simpa using congrArg String.toList heq

theorem nodup_serviceNames_iff (e : Engine) :
    (e.services.entries.flatMap fun p => typeNames p.1 p.2.registry.types.keys).Nodup ↔
      ∀ p ∈ e.services.entries, ∀ q ∈ e.services.entries,
        ¬ Clash p.1 p.2.registry.types.keys q.1 q.2.registry.types.keys := by
  have hne : ∀ p ∈ e.services.entries, ∀ q ∈ e.services.entries, p ≠ q → p.1 ≠ q.1 :=
    fun p hp q hq hpq heq => hpq (List.inj_on_of_nodup_map e.services.nodup hp hq heq)
  have hsymm : Std.Symm (Function.onFun List.Disjoint fun p : String × ExposedService =>
      typeNames p.1 p.2.registry.types.keys) := ⟨fun _ _ h => h.symm⟩
  rw [List.nodup_flatMap]
  constructor
  · rintro ⟨_, hpairwise⟩ p hp q hq
    by_cases hpq : p = q
    · exact hpq ▸ not_clash_self _ _ _
    · have hdisjoint := hpairwise.forall hp hq hpq
      exact ((disjoint_typeNames_iff (hne p hp q hq hpq)).1 hdisjoint).1
  · intro h
    refine ⟨fun p _ => nodup_typeNames p.1 p.2.registry.types.nodup, ?_⟩
    refine (List.Nodup.of_map _ e.services.nodup).pairwise_of_forall_ne fun p hp q hq hpq => ?_
    exact (disjoint_typeNames_iff (hne p hp q hq hpq)).2 ⟨h p hp q hq, h q hq p hp⟩

theorem definesOnce_iff (ha : ∀ d ∈ b.services, ∀ a ∈ d.augmentation, a.KeepsNames)
    (hm : b.Makes built e) : e.DefinesOnce ↔ e.LabelsApart := by
  have hnames := map_name_definitions ha hm
  constructor
  · rintro ⟨hnodup, hfresh⟩
    rw [hnames] at hnodup hfresh
    obtain ⟨_, hservices, hdisjoint⟩ := List.nodup_append.1 hnodup
    have hown : ∀ label ∈ e.services.keys, ∀ name ∈ e.ownNames,
        '_' ∉ name.toList ∧ ¬ "Mutations".toList <:+ name.toList → label ≠ name := by
      rintro label hlabel name hname hplain rfl
      exact hdisjoint label hname label ((mem_serviceNames_iff hplain).2 hlabel) rfl
    refine ⟨fun label hlabel kind => ?_, fun label hlabel s hs => ?_,
      (nodup_serviceNames_iff e).1 hservices⟩
    · exact hown label hlabel _ (mem_ownNames_iff.2 (.inr ⟨kind, rfl⟩)) kind.plain_typeName
    · cases hbuiltin : s.isBuiltin with
      | true =>
        rintro rfl
        have hmem := (mem_serviceNames_iff s.plain_name).2 hlabel
        exact hfresh s hbuiltin (List.mem_append_right _ hmem)
      | false =>
        have hs : s ∈ e.referencedScalars := hs.resolve_left (by simp [hbuiltin])
        exact hown label hlabel _ (mem_ownNames_iff.2 (.inl ⟨s, hs, hbuiltin, rfl⟩)) s.plain_name
  · rintro ⟨hroot, hscalar, hservices⟩
    rw [← nodup_serviceNames_iff] at hservices
    constructor
    · rw [hnames, List.nodup_append]
      refine ⟨nodup_ownNames e, hservices, fun name hname other hother heq => ?_⟩
      subst heq
      rcases mem_ownNames_iff.1 hname with ⟨s, hs, _, rfl⟩ | ⟨kind, rfl⟩
      · exact hscalar _ ((mem_serviceNames_iff s.plain_name).1 hother) s (.inr hs) rfl
      · exact hroot _ ((mem_serviceNames_iff kind.plain_typeName).1 hother) kind rfl
    · intro s hbuiltin hmem
      rw [hnames, List.mem_append] at hmem
      rcases hmem with hown | hlabel
      · exact name_not_mem_ownNames hbuiltin hown
      · exact hscalar _ ((mem_serviceNames_iff s.plain_name).1 hlabel) s (.inl hbuiltin) rfl

/-- Exactly if no label is what a root or a scalar is called and no two services clash does the
schema of an engine define every name once, and none that every schema has. -/
theorem definesOnce_of_build (ha : ∀ d ∈ b.services, ∀ a ∈ d.augmentation, a.KeepsNames)
    (he : build b = .ok e) :
    e.sdl = Sdl.document RootKind.query.typeName RootKind.mutation.typeName e.definitions ∧
      (e.DefinesOnce ↔ e.LabelsApart) := by
  obtain ⟨_, built, hm⟩ := Blueprint.of_build he
  exact ⟨e.sdl_eq, definesOnce_iff ha hm⟩

theorem definesOnce_of_pet : ∃ e, build (petBlueprint ∅) = .ok e ∧
    e.sdl = Sdl.document RootKind.query.typeName RootKind.mutation.typeName e.definitions ∧
    e.DefinesOnce := by
  obtain ⟨e, he⟩ := Blueprint.exists_build (buildable_petBlueprint ∅)
  have ha : ∀ d ∈ (petBlueprint ∅).services, ∀ a ∈ d.augmentation, a.KeepsNames :=
    List.forall_mem_singleton.2 nofun
  obtain ⟨hsdl, hiff⟩ := definesOnce_of_build ha he
  obtain ⟨_, built, hm⟩ := Blueprint.of_build he
  have hkeys : ∀ label ∈ e.services.keys, label = "zoo" := by
    rw [hm.keys_services]
    exact fun label hlabel => List.mem_singleton.1 hlabel
  refine ⟨e, he, hsdl, hiff.2 ⟨fun label hlabel kind => ?_, fun label hlabel s _ => ?_,
    fun p hp q hq => ?_⟩⟩
  · rw [hkeys label hlabel]
    cases kind <;> decide
  · rw [hkeys label hlabel]
    cases s <;> decide
  · rw [hkeys p.1 (List.mem_map_of_mem hp), hkeys q.1 (List.mem_map_of_mem hq)]
    exact not_clash_self _ _ _

/-- The kennel under the name of the query root. -/
def queryBlueprint : Blueprint where
  client := Interleaving.kennelClient
  services := [{ service := ⟨"Query", "http://zoo.test/odata"⟩ }]

theorem buildable_queryBlueprint : queryBlueprint.Buildable := by
  have hcompiles : ((queryBlueprint.services.head (List.cons_ne_nil _ _)).compile
      Interleaving.kennelClient).toOption.any (fun _ => true) = true := by
    decide +kernel
  obtain ⟨r, hr, _⟩ := exists_of_any_toOption hcompiles
  exact {
    named := by decide
    distinct := by decide
    apart := by decide
    compiles := List.forall_mem_singleton.2 ⟨r, hr⟩
    resolves := nofun }

/-- The service's own query root is called like that of the engine. -/
theorem not_forall_definesOnce : ¬ ∀ b e, build b = .ok e → e.DefinesOnce := by
  intro h
  obtain ⟨e, he⟩ := Blueprint.exists_build buildable_queryBlueprint
  obtain ⟨_, built, hm⟩ := Blueprint.of_build he
  have ha : ∀ d ∈ queryBlueprint.services, ∀ a ∈ d.augmentation, a.KeepsNames :=
    List.forall_mem_singleton.2 nofun
  have hapart := (definesOnce_iff ha hm).1 (h queryBlueprint e he)
  have hlabel : "Query" ∈ e.services.keys := by
    rw [hm.keys_services]
    exact List.mem_singleton_self _
  exact hapart.root "Query" hlabel .query rfl

end Engine

end ODataGraph
