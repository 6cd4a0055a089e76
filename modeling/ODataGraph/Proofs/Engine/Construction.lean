import ODataGraph.Proofs.Engine.Services

/-!
Which engines are built. Registries are made first, one for each service, and then host fields are
added, each under a free name and with a type that the service at its URL knows. A blueprint is
checked in that order, but whether it can be built does not depend on the order.
-/

namespace ODataGraph

/-- A type of a registry is called so, by its key or by its GraphQL name. -/
def Registry.Knows (r : Registry) (name : String) : Prop :=
  name ∈ r.types.keys ∨ ∃ t ∈ r.types.values, t.name = name

theorem Registry.findByName?_eq_none_iff {r : Registry} {name : String} :
    r.findByName? name = none ↔ ∀ t ∈ r.types.values, t.name ≠ name := by
  simp only [findByName?, List.find?_eq_none, OrderedMap.values, List.forall_mem_map, beq_iff_eq,
    ne_eq]

namespace HostField

variable {h : HostField} {r : Registry} {key : String} {bound : BoundHostField}

theorem exists_typeKey_iff : (∃ key, h.typeKey r = .ok key) ↔ r.Knows h.typeName := by
  rw [typeKey, Registry.Knows]
  split
  · rename_i hkey
    exact iff_of_true ⟨_, rfl⟩ (.inl (OrderedMap.contains_iff.1 hkey))
  · rename_i hkey
    rw [OrderedMap.contains_iff] at hkey
    rw [or_iff_right hkey]
    cases hfound : r.findByName? h.typeName with
    | none =>
      refine iff_of_false (by rintro ⟨_, ⟨⟩⟩) ?_
      rintro ⟨t, ht, hname⟩
      exact Registry.findByName?_eq_none_iff.1 hfound t ht hname
    | some found =>
      refine iff_of_true ⟨_, rfl⟩ ?_
      have hmem := List.mem_of_find?_eq_some hfound
      exact ⟨found.2, List.mem_map_of_mem hmem, by simpa using List.find?_some hfound⟩

theorem bindTo_eq_ok_iff : h.bindTo r = .ok bound ↔ ∃ key, h.typeKey r = .ok key ∧ bound = {
    name := h.name
    service := r.service.label
    field := {
      type := if h.isList then .list (.named key) else .named key
      kind := .property
      description := h.description
      arguments := h.arguments }
    resolve := h.resolve } := by
  rw [bindTo, bind_eq_ok_iff]
  refine exists_congr fun key => and_congr_right fun _ => ⟨fun heq => ?_, fun heq => heq ▸ rfl⟩
  exact (Except.ok.inj heq).symm

end HostField

namespace Engine

variable {e e' : Engine} {h : HostField} {hs : List HostField}

/-- The names of the fields of the query root. -/
def rootNames (e : Engine) : List String := e.services.keys ++ e.hostFields.keys

theorem addHostField_eq_ok_iff : addHostField e h = .ok e' ↔
    Graphql.isFieldName h.name = true ∧ h.name ∉ e.rootNames ∧
      ∃ r bound, e.cache.get? h.baseUrl = some r ∧ h.bindTo r = .ok bound ∧
        e' = { e with hostFields := e.hostFields.insert h.name bound } := by
  rw [addHostField]
  by_cases hname : Graphql.isFieldName h.name = true
  swap
  · rw [if_pos (by simp [hname])]
    exact iff_of_false (by rintro ⟨⟩) fun h => hname h.1
  rw [if_neg (by simp [hname])]
  by_cases htaken : h.name ∈ e.rootNames
  · have hcontains : (e.services.contains h.name || e.hostFields.contains h.name) = true := by
      simpa [rootNames] using htaken
    dsimp only
    rw [if_pos hcontains]
    exact iff_of_false (by rintro ⟨⟩) fun h => h.2.1 htaken
  have hcontains : ¬ (e.services.contains h.name || e.hostFields.contains h.name) = true := by
    simpa [rootNames] using htaken
  dsimp only
  rw [if_neg hcontains, bind_eq_ok_iff]
  simp only [mapError_eq_ok_iff, bind_eq_ok_iff, hname, htaken, true_and, not_false_eq_true]
  constructor
  · rintro ⟨bound, ⟨r, hr, hbound⟩, heq⟩
    rw [RegistryCache.require] at hr
    split at hr
    · rename_i r' hget
      cases hr
      exact ⟨r, bound, hget, hbound, (Except.ok.inj heq).symm⟩
    · cases hr
  · rintro ⟨r, bound, hget, hbound, rfl⟩
    refine ⟨bound, ⟨r, ?_, hbound⟩, rfl⟩
    rw [RegistryCache.require, hget]

theorem rootNames_insert {name : String} (h : name ∉ e.rootNames) (bound : BoundHostField) :
    rootNames { e with hostFields := e.hostFields.insert name bound } = e.rootNames ++ [name] := by
  have hkeys : name ∉ e.hostFields.keys := fun hmem => h (List.mem_append_right _ hmem)
  simp [rootNames, OrderedMap.keys_insert, hkeys]

/-- What an engine is once host fields are added to it. -/
structure Gains (e : Engine) (hs : List HostField) (e' : Engine) : Prop where
  rest : e' = { e with hostFields := e'.hostFields }
  named : ∀ h ∈ hs, Graphql.isFieldName h.name = true
  rootNames : e'.rootNames = e.rootNames ++ hs.map (·.name)
  nodup : e'.rootNames.Nodup
  kept : ∀ name bound, e.hostFields.get? name = some bound → e'.hostFields.get? name = some bound
  bound : ∀ h ∈ hs, ∃ r bound, e.cache.get? h.baseUrl = some r ∧ h.bindTo r = .ok bound ∧
    e'.hostFields.get? h.name = some bound

theorem gains_of_foldlM (hnodup : e.rootNames.Nodup) (h : hs.foldlM addHostField e = .ok e') :
    e.Gains hs e' := by
  induction hs generalizing e with
  | nil =>
    cases h
    exact ⟨rfl, nofun, (List.append_nil _).symm, hnodup, fun _ _ => id, nofun⟩
  | cons host rest ih =>
    rw [List.foldlM_cons] at h
    obtain ⟨e₁, hadd, h⟩ := bind_eq_ok_iff.1 h
    obtain ⟨hname, hfresh, r, bound, hr, hbound, rfl⟩ := addHostField_eq_ok_iff.1 hadd
    have hkey : host.name ∉ e.hostFields.keys :=
      fun hmem => hfresh (List.mem_append_right _ hmem)
    have hadded := rootNames_insert hfresh bound
    have hnodup : (e.rootNames ++ [host.name]).Nodup :=
      List.nodup_append.2 ⟨hnodup, List.nodup_singleton _, fun a ha b hb heq =>
        hfresh (List.mem_singleton.1 hb ▸ heq ▸ ha)⟩
    obtain ⟨hrest, hnamed, hnames, hnodup, hkept, hall⟩ := ih (hadded.symm ▸ hnodup) h
    refine ⟨hrest, List.forall_mem_cons.2 ⟨hname, hnamed⟩, ?_, hnodup, ?_,
      List.forall_mem_cons.2 ⟨⟨r, bound, hr, hbound, ?_⟩, hall⟩⟩
    · rw [hnames, hadded, List.map_cons, List.append_assoc, List.singleton_append]
    · intro name bound' hget
      refine hkept name bound' ?_
      rw [OrderedMap.get?_insert, if_neg, hget]
      exact fun heq => hkey (OrderedMap.mem_keys_iff.2 ⟨bound', heq ▸ hget⟩)
    · refine hkept host.name bound ?_
      rw [OrderedMap.get?_insert, if_pos rfl]

theorem exists_foldlM (hnamed : ∀ h ∈ hs, Graphql.isFieldName h.name = true)
    (hnodup : (e.rootNames ++ hs.map (·.name)).Nodup)
    (hknown : ∀ h ∈ hs, ∃ r, e.cache.get? h.baseUrl = some r ∧ r.Knows h.typeName) :
    ∃ e', hs.foldlM addHostField e = .ok e' := by
  induction hs generalizing e with
  | nil => exact ⟨e, rfl⟩
  | cons host rest ih =>
    obtain ⟨hname, hnamed⟩ := List.forall_mem_cons.1 hnamed
    obtain ⟨⟨r, hr, hknows⟩, hknown⟩ := List.forall_mem_cons.1 hknown
    obtain ⟨key, hkey⟩ := HostField.exists_typeKey_iff.2 hknows
    have hfresh : host.name ∉ e.rootNames := by
      rw [List.map_cons, List.nodup_append] at hnodup
      exact fun hmem => hnodup.2.2 _ hmem _ List.mem_cons_self rfl
    have hbound := HostField.bindTo_eq_ok_iff.2 ⟨key, hkey, rfl⟩
    have hadd := addHostField_eq_ok_iff.2 ⟨hname, hfresh, r, _, hr, hbound, rfl⟩
    rw [List.map_cons, ← List.singleton_append, ← List.append_assoc,
      ← rootNames_insert hfresh] at hnodup
    obtain ⟨e', h⟩ := ih hnamed hnodup hknown
    exact ⟨e', by rw [List.foldlM_cons]; exact bind_eq_ok_iff.2 ⟨_, hadd, h⟩⟩

end Engine

namespace Blueprint

variable {b : Blueprint} {e : Engine}

/-- The names that the fields of the query root are to have. -/
def rootNames (b : Blueprint) : List String :=
  b.services.map (·.service.label) ++ b.hostFields.map (·.name)

/-- An engine can be built: the names of root fields and the places of services tell them apart,
every service has a registry, and the type of every host field is known to a service. -/
structure Buildable (b : Blueprint) : Prop where
  named : ∀ name ∈ b.rootNames, Graphql.isFieldName name = true
  distinct : b.rootNames.Nodup
  apart : (b.services.map (·.service.place)).Nodup
  compiles : ∀ d ∈ b.services, ∃ r, d.compile b.client = .ok r
  resolves : ∀ h ∈ b.hostFields, ∃ d ∈ b.services, d.service.baseUrl = h.baseUrl ∧
    ∃ r, d.compile b.client = .ok r ∧ r.Knows h.typeName

def exposed (p : ServiceDefinition × Registry) : String × ExposedService :=
  (p.1.service.label, { registry := p.2, hooks := fun _ => p.1.hooks })

/-- What an engine is made of: the services with their registries, and the host fields, each bound
to a type of the service that it refers to. -/
structure Makes (b : Blueprint) (built : List (ServiceDefinition × Registry)) (e : Engine) :
    Prop where
  definitions : built.map Prod.fst = b.services
  compiled : ∀ p ∈ built, p.1.compile b.client = .ok p.2
  services : e.services.entries = built.map exposed
  rootNames : e.rootNames = b.rootNames
  bound : ∀ h ∈ b.hostFields, ∃ p ∈ built, p.1.service.baseUrl = h.baseUrl ∧
    ∃ bound, h.bindTo p.2 = .ok bound ∧ e.hostFields.get? h.name = some bound

theorem Makes.keys_services {built : List (ServiceDefinition × Registry)}
    (hm : b.Makes built e) : e.services.keys = b.services.map (·.service.label) := by
  rw [OrderedMap.keys, hm.services, ← hm.definitions, List.map_map, List.map_map]
  rfl

theorem Makes.keys_hostFields {built : List (ServiceDefinition × Registry)}
    (hm : b.Makes built e) : e.hostFields.keys = b.hostFields.map (·.name) := by
  have hnames := hm.rootNames
  rw [Engine.rootNames, Blueprint.rootNames, hm.keys_services] at hnames
  exact List.append_cancel_left hnames

/-- The engine before host fields are added to it. -/
def bare (b : Blueprint) (built : List (ServiceDefinition × Registry)) (cache : RegistryCache) :
    Engine where
  client := fun _ => b.client
  exposure := b.exposure
  cache
  services := .ofList (built.map exposed)

theorem build_eq_ok_iff : Engine.build b = .ok e ↔
    Service.validate (b.services.map (·.service)) = .ok () ∧
      ∃ built cache, registries b.client {} b.services = .ok (built, cache) ∧
        b.hostFields.foldlM Engine.addHostField (b.bare built cache) = .ok e := by
  simp only [Engine.build, bind_eq_ok_iff, mapError_eq_ok_iff, Prod.exists]
  constructor
  · rintro ⟨_, hvalid, built, cache, hbuilt, h⟩
    exact ⟨hvalid, built, cache, hbuilt, h⟩
  · rintro ⟨hvalid, built, cache, hbuilt, h⟩
    exact ⟨(), hvalid, built, cache, hbuilt, h⟩

theorem nodup_baseUrl (h : (b.services.map (·.service.place)).Nodup) :
    (b.services.map (·.service.baseUrl)).Nodup := by
  have hplace : b.services.map (·.service.place) =
      (b.services.map (·.service.baseUrl)).map Text.trimEndSlashes := by
    simp [Service.place, Function.comp_def]
  exact List.Nodup.of_map _ (hplace ▸ h)

theorem unasked_empty (baseUrl : String) : RegistryCache.Unasked {} baseUrl := ⟨rfl, rfl⟩

/-- What is known of registries that are made with an empty cache. -/
theorem of_registries (hapart : (b.services.map (·.service.place)).Nodup)
    {built : List (ServiceDefinition × Registry)} {cache : RegistryCache}
    (hbuilt : registries b.client {} b.services = .ok (built, cache)) :
    built.map Prod.fst = b.services ∧ (∀ p ∈ built, p.1.compile b.client = .ok p.2) ∧
      ∀ baseUrl r, cache.get? baseUrl = some r ↔
        ∃ p ∈ built, p.1.service.baseUrl = baseUrl ∧ p.2 = r := by
  obtain ⟨hdefinitions, hcompiled, hget⟩ := of_registries_eq_ok RegistryCache.founded_empty
    (fun d _ => unasked_empty d.service.baseUrl) (nodup_baseUrl hapart) hbuilt
  exact ⟨hdefinitions, hcompiled, fun baseUrl r => (hget baseUrl r).trans (or_iff_left nofun)⟩

theorem bare_eq {built : List (ServiceDefinition × Registry)}
    (hdefinitions : built.map Prod.fst = b.services)
    (hlabels : (b.services.map (·.service.label)).Nodup) (cache : RegistryCache) :
    (b.bare built cache).services.entries = built.map exposed ∧
      (b.bare built cache).rootNames = b.services.map (·.service.label) := by
  have hkeys : (built.map exposed).map Prod.fst = b.services.map (·.service.label) := by
    rw [← hdefinitions, List.map_map, List.map_map]
    rfl
  have hentries : (b.bare built cache).services.entries = built.map exposed :=
    OrderedMap.entries_ofList (hkeys ▸ hlabels)
  refine ⟨hentries, ?_⟩
  rw [Engine.rootNames, OrderedMap.keys, hentries, hkeys]
  exact List.append_nil _

theorem of_build (h : Engine.build b = .ok e) : b.Buildable ∧ ∃ built, b.Makes built e := by
  obtain ⟨hvalid, built, cache, hbuilt, h⟩ := build_eq_ok_iff.1 h
  rw [Service.validate_eq_ok_iff, List.map_map, List.map_map, List.forall_mem_map] at hvalid
  obtain ⟨hnamed, hlabels, hapart⟩ := hvalid
  obtain ⟨hdefinitions, hcompiled, hget⟩ := of_registries hapart hbuilt
  obtain ⟨hentries, hbare⟩ := bare_eq hdefinitions hlabels cache
  have hgains := Engine.gains_of_foldlM (hbare ▸ hlabels) h
  have hnames : e.rootNames = b.rootNames := by rw [hgains.rootNames, hbare, rootNames]
  have hservices : e.services = (b.bare built cache).services := by rw [hgains.rest]
  -- a registry in the cache is that of the service at its URL
  have hfound : ∀ h ∈ b.hostFields, ∃ p ∈ built, p.1.service.baseUrl = h.baseUrl ∧
      ∃ bound, h.bindTo p.2 = .ok bound ∧ e.hostFields.get? h.name = some bound := by
    intro host hhost
    obtain ⟨r, bound, hr, hbound, hfield⟩ := hgains.bound host hhost
    obtain ⟨p, hp, hurl, rfl⟩ := (hget _ _).1 hr
    exact ⟨p, hp, hurl, bound, hbound, hfield⟩
  refine ⟨⟨?_, hnames ▸ hgains.nodup, hapart, ?_, ?_⟩, built,
    ⟨hdefinitions, hcompiled, hservices ▸ hentries, hnames, hfound⟩⟩
  · rw [rootNames, List.forall_mem_append, List.forall_mem_map, List.forall_mem_map]
    exact ⟨hnamed, hgains.named⟩
  · rw [← hdefinitions, List.forall_mem_map]
    exact fun p hp => ⟨p.2, hcompiled p hp⟩
  · intro host hhost
    obtain ⟨p, hp, hurl, bound, hbound, _⟩ := hfound host hhost
    obtain ⟨key, hkey, _⟩ := HostField.bindTo_eq_ok_iff.1 hbound
    exact ⟨p.1, hdefinitions ▸ List.mem_map_of_mem hp, hurl, p.2, hcompiled p hp,
      HostField.exists_typeKey_iff.1 ⟨key, hkey⟩⟩

theorem exists_build (h : b.Buildable) : ∃ e, Engine.build b = .ok e := by
  have hnamed := h.named
  rw [rootNames, List.forall_mem_append, List.forall_mem_map, List.forall_mem_map] at hnamed
  have hlabels := (List.nodup_append.1 h.distinct).1
  have hvalid : Service.validate (b.services.map (·.service)) = .ok () := by
    rw [Service.validate_eq_ok_iff, List.map_map, List.map_map, List.forall_mem_map]
    exact ⟨hnamed.1, hlabels, h.apart⟩
  obtain ⟨built, cache, hbuilt⟩ := exists_registries RegistryCache.founded_empty
    (fun d _ => unasked_empty d.service.baseUrl) (nodup_baseUrl h.apart) h.compiles
  obtain ⟨hdefinitions, hcompiled, hget⟩ := of_registries h.apart hbuilt
  have hbare := (bare_eq hdefinitions hlabels cache).2
  have hknown : ∀ h ∈ b.hostFields, ∃ r, cache.get? h.baseUrl = some r ∧ r.Knows h.typeName := by
    intro host hhost
    obtain ⟨d, hd, hurl, r, hr, hknows⟩ := h.resolves host hhost
    obtain ⟨p, hp, rfl⟩ := List.mem_map.1 (hdefinitions ▸ hd)
    cases hr.symm.trans (hcompiled p hp)
    exact ⟨p.2, (hget _ _).2 ⟨p, hp, hurl, rfl⟩, hknows⟩
  obtain ⟨e, he⟩ := Engine.exists_foldlM (e := b.bare built cache) hnamed.2
    (hbare ▸ h.distinct) hknown
  exact ⟨e, build_eq_ok_iff.2 ⟨hvalid, built, cache, hbuilt, he⟩⟩

end Blueprint
end ODataGraph
