import ODataGraph.Proofs.Engine.QueryRoot
import ODataGraph.Proofs.Registry.Hierarchy
import ODataGraph.Proofs.Sdl.Definition

/-!
Which scalars a schema defines, and which it needs. Scalars are collected from the services, so that
everything is found there which the types and roots of services refer to. Arguments of host fields
are printed as well, but not looked through.
-/

namespace ODataGraph

open Sdl (Definition)

namespace Sdl.Definition

/-- The types of fields and arguments that a definition shows. -/
def references : Definition → List TypeReference
  | .scalar _ => []
  | .root _ _ fields => fields.flatMap fun (_, _, f) => f.types
  | .type _ (.object o) => o.fields.values.flatMap Field.types
  | .type _ _ => []

/-- A definition shows a scalar, within lists or not. -/
def Shows (d : Definition) (s : Scalar) : Prop := ∃ t ∈ d.references, t.underlying = .scalar s

def scalar? : Definition → Option Scalar
  | .scalar s => some s
  | _ => none

end Sdl.Definition

theorem Scalar.mem_defined_iff {s : Scalar} : s ∈ defined ↔ s.isBuiltin = false := by
  cases s <;> decide

theorem Registry.usesScalar_iff {r : Registry} {s : Scalar} :
    r.usesScalar s = true ↔ ∃ d ∈ r.typeDefinitions, d.Shows s := by
  have hobjects : r.objects = (r.types.values ++
      [Descriptor.object r.queryRoot, .object r.mutationRoot]).filterMap Descriptor.object? := by
    rw [List.filterMap_append]
    rfl
  simp only [usesScalar, hobjects, typeDefinitions, List.any_eq_true, List.mem_filterMap,
    Descriptor.object?_eq_some_iff, decide_eq_true_eq, List.mem_map]
  constructor
  · rintro ⟨o, ⟨_, ht, rfl⟩, f, hf, type, htype, hs⟩
    exact ⟨_, ⟨_, ht, rfl⟩, type, List.mem_flatMap.2 ⟨f, hf, htype⟩, hs⟩
  · rintro ⟨_, ⟨t, ht, rfl⟩, type, htype, hs⟩
    cases t with
    | object o =>
      obtain ⟨f, hf, htype⟩ := List.mem_flatMap.1 htype
      exact ⟨o, ⟨_, ht, rfl⟩, f, hf, type, htype, hs⟩
    | enum _ => cases htype
    | union _ => cases htype

namespace Engine

variable {b : Blueprint} {e : Engine} {s : Scalar}
  {built : List (ServiceDefinition × Registry)}

/-- A scalar is the type of some field or argument in the schema. -/
def ShowsScalar (e : Engine) (s : Scalar) : Prop := ∃ d ∈ e.definitions, d.Shows s

/-- The scalars that are defined, as often as they are. -/
def definedScalars (e : Engine) : List Scalar := e.definitions.filterMap Definition.scalar?

/-- The scalars that are shown have one definition each, unless every schema has them, and no other
scalar has one. -/
structure DefinesScalars (e : Engine) : Prop where
  shown : ∀ s, s.isBuiltin = false → e.ShowsScalar s → e.definedScalars.count s = 1
  others : ∀ s, s.isBuiltin = true ∨ ¬ e.ShowsScalar s → e.definedScalars.count s = 0

theorem mem_referencedScalars_iff : s ∈ e.referencedScalars ↔
    s.isBuiltin = false ∧ ∃ x ∈ e.services.values, x.registry.usesScalar s = true := by
  simp only [referencedScalars, Registry.referencedScalars, List.mem_eraseDups, List.mem_flatMap,
    List.mem_filter, Scalar.mem_defined_iff]
  exact ⟨fun ⟨x, hx, hs, huses⟩ => ⟨hs, x, hx, huses⟩, fun ⟨hs, x, hx, huses⟩ => ⟨x, hx, hs, huses⟩⟩

theorem definedScalars_eq (e : Engine) :
    e.definedScalars = e.referencedScalars.filter (!·.isBuiltin) := by
  have htypes : (e.services.values.flatMap fun x => x.registry.typeDefinitions).filterMap
      Definition.scalar? = [] := by
    refine List.filterMap_eq_nil_iff.2 fun d hd => ?_
    obtain ⟨x, _, hd⟩ := List.mem_flatMap.1 hd
    obtain ⟨t, _, rfl⟩ := List.mem_map.1 hd
    rfl
  rw [definedScalars, definitions, List.filterMap_append, List.filterMap_append, htypes,
    List.filterMap_map, rootDefinitions]
  exact (List.append_nil _).trans ((List.append_nil _).trans List.filterMap_some)

/-- A scalar is defined once if the types or the roots of some service show it. -/
theorem count_definedScalars (e : Engine) (s : Scalar) : e.definedScalars.count s =
    if s ∈ e.referencedScalars then 1 else 0 := by
  have hnodup : (e.referencedScalars.filter (!·.isBuiltin)).Nodup :=
    (Hierarchy.nodup_eraseDups _).filter _
  rw [definedScalars_eq, hnodup.count]
  simp only [List.mem_filter]
  by_cases hs : s ∈ e.referencedScalars
  · have hbuiltin := (mem_referencedScalars_iff.1 hs).1
    simp [hs, hbuiltin]
  · simp [hs]

theorem showsScalar_iff : e.ShowsScalar s ↔
    (∃ x ∈ e.services.values, x.registry.usesScalar s = true) ∨
      ∃ row ∈ e.hostRows, ∃ t ∈ row.2.2.types, t.underlying = .scalar s := by
  simp only [Registry.usesScalar_iff]
  constructor
  · rintro ⟨d, hd, t, ht, hs⟩
    rw [definitions, rootDefinitions, List.mem_append, List.mem_append, List.mem_map,
      List.mem_pair, List.mem_flatMap] at hd
    rcases hd with (⟨_, _, rfl⟩ | rfl | rfl) | ⟨x, hx, hd⟩
    · cases ht
    · obtain ⟨row, hrow, ht⟩ := List.mem_flatMap.1 ht
      exact .inr ⟨row, hrow, t, ht, hs⟩
    · cases ht
    · exact .inl ⟨x, hx, d, hd, t, ht, hs⟩
  · rintro (⟨x, hx, d, hd, hs⟩ | ⟨row, hrow, t, ht, hs⟩)
    · exact ⟨d, List.mem_append_right _ (List.mem_flatMap.2 ⟨x, hx, hd⟩), hs⟩
    · refine ⟨_, List.mem_append_left _ (List.mem_append_right _ List.mem_cons_self), t, ?_, hs⟩
      exact List.mem_flatMap.2 ⟨row, hrow, ht⟩

end Engine

/-- An argument of a host field is of a scalar type, within lists or not. -/
def HostField.TakesScalar (h : HostField) (s : Scalar) : Prop :=
  ∃ a ∈ h.arguments.values, a.type.underlying = .scalar s

/-- A bound field shows the scalars of its arguments, and no scalar is its own type. -/
theorem HostField.exists_types_iff {h : HostField} {r : Registry} {bound : BoundHostField}
    (hbound : h.bindTo r = .ok bound) {s : Scalar} :
    (∃ t ∈ bound.field.types, t.underlying = .scalar s) ↔ h.TakesScalar s := by
  obtain ⟨key, _, rfl⟩ := bindTo_eq_ok_iff.1 hbound
  rw [Field.types, List.exists_mem_cons_iff]
  simp only [List.mem_map, exists_exists_and_eq_and]
  refine or_iff_right fun hs => ?_
  split at hs <;> cases hs

namespace Blueprint

variable {b : Blueprint} {e : Engine} {s : Scalar} {built : List (ServiceDefinition × Registry)}

theorem Makes.exists_hostRows_iff (hm : b.Makes built e) :
    (∃ row ∈ e.hostRows, ∃ t ∈ row.2.2.types, t.underlying = .scalar s) ↔
      ∃ h ∈ b.hostFields, h.TakesScalar s := by
  constructor
  · rintro ⟨row, hrow, ht⟩
    obtain ⟨⟨name, bound⟩, hentry, hrow⟩ := List.mem_filterMap.1 hrow
    obtain ⟨x, _, rfl⟩ := Option.map_eq_some_iff.1 hrow
    have hget := OrderedMap.mem_entries_iff.1 hentry
    have hname : name ∈ b.hostFields.map (·.name) :=
      hm.keys_hostFields ▸ OrderedMap.mem_keys_iff.2 ⟨bound, hget⟩
    obtain ⟨h, hh, rfl⟩ := List.mem_map.1 hname
    obtain ⟨_, _, _, bound', hbound, hget'⟩ := hm.bound h hh
    cases hget.symm.trans hget'
    exact ⟨h, hh, (HostField.exists_types_iff hbound).1 ht⟩
  · rintro ⟨h, hh, hs⟩
    obtain ⟨p, hp, _, bound, hbound, hget⟩ := hm.bound h hh
    have hservice : bound.service = p.1.service.label := by
      obtain ⟨_, _, rfl⟩ := HostField.bindTo_eq_ok_iff.1 hbound
      exact congrArg Service.label (ServiceDefinition.service_of_compile (hm.compiled p hp))
    have hx := hservice ▸ hm.get?_services hp
    refine ⟨(p.2, h.name, bound.field), ?_, (HostField.exists_types_iff hbound).2 hs⟩
    refine List.mem_filterMap.2 ⟨(h.name, bound), OrderedMap.mem_entries_iff.2 hget, ?_⟩
    exact Option.map_eq_some_iff.2 ⟨_, hx, rfl⟩

end Blueprint

namespace Engine

variable {b : Blueprint} {e : Engine} {built : List (ServiceDefinition × Registry)}

/-- The scalars that arguments of host fields show are shown by the services, too. -/
def ServesArguments (e : Engine) (b : Blueprint) : Prop :=
  ∀ h ∈ b.hostFields, ∀ s, h.TakesScalar s →
    s.isBuiltin = true ∨ ∃ x ∈ e.services.values, x.registry.usesScalar s = true

theorem definesScalars_iff (hm : b.Makes built e) : e.DefinesScalars ↔ e.ServesArguments b := by
  constructor
  · rintro ⟨hshown, _⟩ h hh s hs
    refine or_iff_not_imp_left.2 fun hbuiltin => ?_
    have hbuiltin : s.isBuiltin = false := Bool.not_eq_true _ ▸ hbuiltin
    have hcount := hshown s hbuiltin
      (showsScalar_iff.2 (.inr (hm.exists_hostRows_iff.2 ⟨h, hh, hs⟩)))
    rw [count_definedScalars] at hcount
    split at hcount
    · rename_i hmem
      exact (mem_referencedScalars_iff.1 hmem).2
    · cases hcount
  · intro hserves
    constructor
    · intro s hbuiltin hshows
      have huses : ∃ x ∈ e.services.values, x.registry.usesScalar s = true := by
        rcases showsScalar_iff.1 hshows with huses | hrow
        · exact huses
        · obtain ⟨h, hh, hs⟩ := hm.exists_hostRows_iff.1 hrow
          exact (hserves h hh s hs).resolve_left (by simp [hbuiltin])
      rw [count_definedScalars, if_pos (mem_referencedScalars_iff.2 ⟨hbuiltin, huses⟩)]
    · intro s hs
      rw [count_definedScalars, if_neg]
      intro hmem
      obtain ⟨hbuiltin, huses⟩ := mem_referencedScalars_iff.1 hmem
      rcases hs with hs | hs
      · rw [hbuiltin] at hs
        cases hs
      · exact hs (showsScalar_iff.2 (.inl huses))

/-- Scalars are defined once, and exactly those that services show. That is one definition for every
scalar that the schema shows if arguments of host fields show no others. -/
theorem definesScalars_of_build (he : build b = .ok e) :
    e.sdl = Sdl.document RootKind.query.typeName RootKind.mutation.typeName e.definitions ∧
    (∀ s, e.definedScalars.count s = if s ∈ e.referencedScalars then 1 else 0) ∧
    (∀ s, e.ShowsScalar s ↔ (∃ x ∈ e.services.values, x.registry.usesScalar s = true) ∨
      ∃ h ∈ b.hostFields, h.TakesScalar s) ∧
    (e.DefinesScalars ↔ e.ServesArguments b) := by
  obtain ⟨_, built, hm⟩ := Blueprint.of_build he
  exact ⟨e.sdl_eq, e.count_definedScalars,
    fun s => showsScalar_iff.trans (or_congr_right hm.exists_hostRows_iff), definesScalars_iff hm⟩

theorem definesScalars_of_pet : ∃ e, build (petBlueprint ∅) = .ok e ∧ e.DefinesScalars := by
  obtain ⟨e, he⟩ := Blueprint.exists_build (buildable_petBlueprint ∅)
  obtain ⟨_, _, _, hiff⟩ := definesScalars_of_build he
  have htakes : ∀ h ∈ (petBlueprint ∅).hostFields, ∀ s, ¬ h.TakesScalar s :=
    List.forall_mem_singleton.2 fun _ ⟨_, ha, _⟩ => nomatch ha
  exact ⟨e, he, hiff.2 fun h hh s hs => absurd hs (htakes h hh s)⟩

/-- The host asks for a date, which nothing in the zoo has. -/
theorem not_forall_definesScalars : ¬ ∀ b e, build b = .ok e → e.DefinesScalars := by
  intro h
  let born : OrderedMap String Argument := OrderedMap.empty.insert "born" { type := .scalar .date }
  obtain ⟨e, he⟩ := Blueprint.exists_build (buildable_petBlueprint born)
  obtain ⟨_, built, hm⟩ := Blueprint.of_build he
  have hundated : ((zooDefinition.compile Interleaving.kennelClient).toOption.any fun r =>
      !r.usesScalar .date) = true := by
    decide +kernel
  obtain ⟨r, hr, hdate⟩ := exists_of_any_toOption hundated
  have hserves := (definesScalars_iff hm).1 (h _ e he)
  have htakes : ((petBlueprint born).hostFields.head (List.cons_ne_nil _ _)).TakesScalar .date :=
    ⟨_, List.mem_singleton_self _, rfl⟩
  rcases hserves _ (List.head_mem _) .date htakes with hbuiltin | ⟨x, hx, huses⟩
  · cases hbuiltin
  · rw [OrderedMap.values, hm.services, List.map_map] at hx
    obtain ⟨p, hp, rfl⟩ := List.mem_map.1 hx
    have hd : p.1 ∈ (petBlueprint born).services := hm.definitions ▸ List.mem_map_of_mem hp
    have hcompiled := hm.compiled p hp
    rw [List.mem_singleton.1 hd] at hcompiled
    cases hr.symm.trans hcompiled
    rw [Bool.not_eq_true'] at hdate
    exact absurd huses (by simp [Blueprint.exposed, hdate])

end Engine
end ODataGraph
