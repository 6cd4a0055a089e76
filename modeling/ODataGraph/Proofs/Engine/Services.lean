import Mathlib.Data.List.Nodup
import ODataGraph.Engine.Build
import ODataGraph.Proofs.Sequence

/-!
The services of an engine. They are exposed together iff their labels are names and neither labels
nor places occur twice. The cache knows none of them at first, so that each gets the registry that
it has by itself.
-/

namespace ODataGraph

namespace Service

/-- Services pass the check if each has a name for its label, and neither their labels nor their
places occur twice, those of earlier ones included. -/
theorem validateAfter_eq_ok_iff {earlier services : List Service}
    (hlabel : (earlier.map label).Nodup) (hplace : (earlier.map place).Nodup) :
    validateAfter earlier services = .ok () ↔
      (∀ s ∈ services, Graphql.isFieldName s.label = true) ∧
      ((services.reverse ++ earlier).map label).Nodup ∧
      ((services.reverse ++ earlier).map place).Nodup := by
  induction services generalizing earlier with
  | nil => simp [validateAfter, hlabel, hplace]
  | cons s rest ih =>
    rw [validateAfter, List.forall_mem_cons, List.reverse_cons, List.append_assoc,
      List.singleton_append]
    by_cases hname : Graphql.isFieldName s.label = true
    swap
    · simp [hname]
    have hnot : (!Graphql.isFieldName s.label) ≠ true := by simp [hname]
    rw [if_neg hnot]
    split
    · rename_i htaken
      refine iff_of_false nofun fun ⟨_, hnodup, _⟩ => ?_
      rw [List.map_append, List.map_cons] at hnodup
      have hfresh := (List.nodup_cons.1 (List.nodup_append.1 hnodup).2.1).1
      exact hfresh (by simpa using htaken)
    rename_i hlabelFresh
    split
    · rename_i htaken
      refine iff_of_false nofun fun ⟨_, _, hnodup⟩ => ?_
      rw [List.map_append, List.map_cons] at hnodup
      have hfresh := (List.nodup_cons.1 (List.nodup_append.1 hnodup).2.1).1
      exact hfresh (by simpa using htaken)
    rename_i hplaceFresh
    have hlabel' : ((s :: earlier).map label).Nodup :=
      List.nodup_cons.2 ⟨by simpa using hlabelFresh, hlabel⟩
    have hplace' : ((s :: earlier).map place).Nodup :=
      List.nodup_cons.2 ⟨by simpa using hplaceFresh, hplace⟩
    rw [ih hlabel' hplace']
    simp [hname]

theorem validate_eq_ok_iff {services : List Service} : validate services = .ok () ↔
    (∀ s ∈ services, Graphql.isFieldName s.label = true) ∧
      (services.map label).Nodup ∧ (services.map place).Nodup := by
  have hnone : (([] : List Service).map label).Nodup := List.nodup_nil
  have hnowhere : (([] : List Service).map place).Nodup := List.nodup_nil
  rw [validate, validateAfter_eq_ok_iff hnone hnowhere]
  simp [List.nodup_reverse]

end Service

namespace Slots

variable {α : Type u} {s : Slots α} {key other : String} {a : α}

/-- Every key stands for one of the cells. -/
def Founded (s : Slots α) : Prop :=
  ∀ key cell, s.current.get? key = some cell → cell < s.cells.length

theorem founded_empty : Founded ({} : Slots α) := nofun

theorem content?_take_of_none (h : s.current.get? key = none) :
    (s.take key).2.content? (s.take key).1 = none := by
  rcases s.cases_take key with ⟨_, hcell⟩ | ⟨_, hcell, _⟩
  · rw [h] at hcell
    cases hcell
  · rw [content?_take, hcell, content?, List.getElem?_eq_none (Nat.le_refl _)]
    rfl

theorem Founded.take (hs : s.Founded) (key : String) : (s.take key).2.Founded := by
  intro k cell hcell
  rcases s.cases_take key with ⟨heq, _⟩ | ⟨_, hnew, hcells⟩
  · rw [heq] at hcell ⊢
    exact hs k cell hcell
  · rw [get?_current_take] at hcell
    rw [hcells, List.length_append, List.length_singleton]
    split at hcell
    · cases hcell
      omega
    · exact Nat.lt_succ_of_lt (hs k cell hcell)

theorem Founded.fill (hs : s.Founded) (cell : Nat) (a : α) : (s.fill cell a).Founded := by
  intro k c hc
  rw [Slots.fill, List.length_set]
  exact hs k c hc

/-- A new cell that is filled is found under its key, and everything else is where it was. -/
theorem get?_fill_take (hs : s.Founded) (h : s.current.get? key = none) (other : String) :
    ((s.take key).2.fill (s.take key).1 a).get? other =
      if other = key then some a else s.get? other := by
  obtain ⟨_, hnew, hcells⟩ := (s.cases_take key).resolve_left fun ⟨_, hcell⟩ => by
    rw [h] at hcell
    cases hcell
  have hlt : (s.take key).1 < (s.take key).2.cells.length := by
    rw [hcells, hnew, List.length_append, List.length_singleton]
    exact Nat.lt_succ_self _
  have hcurrent : ((s.take key).2.fill (s.take key).1 a).current = (s.take key).2.current := rfl
  rw [get?, hcurrent, get?_current_take]
  split
  · exact content?_fill _ hlt a
  · rw [get?]
    cases hother : s.current.get? other with
    | none => rfl
    | some cell =>
      have hne : (s.take key).1 ≠ cell := by
        rw [hnew]
        exact (Nat.ne_of_lt (hs other cell hother)).symm
      exact (content?_fill_of_ne _ hne a).trans (s.content?_take key cell)

end Slots

/-- The registry of a service by itself. -/
def ServiceDefinition.compile (client : Http.Client) (d : ServiceDefinition) :
    Except SchemaError Registry := do
  Registry.build d.service (← Csdl.Document.fetch client d.service.baseUrl) d.augmentation

namespace RegistryCache

variable {c : RegistryCache} {d : ServiceDefinition}

structure Founded (c : RegistryCache) : Prop where
  documents : Slots.Founded c.documents
  registries : c.registries.Founded

theorem founded_empty : Founded {} := ⟨Slots.founded_empty, Slots.founded_empty⟩

/-- Nobody has asked for the service at a URL. -/
structure Unasked (c : RegistryCache) (baseUrl : String) : Prop where
  documents : c.documents.current.get? baseUrl = none
  registries : c.registries.current.get? baseUrl = none

/-- A cache has got one registry more. -/
structure Adds (c c' : RegistryCache) (baseUrl : String) (r : Registry) : Prop where
  founded : c'.Founded
  get? : ∀ other, c'.get? other = if other = baseUrl then some r else c.get? other
  unasked : ∀ other ≠ baseUrl, c.Unasked other → c'.Unasked other

/-- A service that nobody has asked for is compiled. -/
theorem getOrBuild_of_unasked (hc : c.Founded) (hd : c.Unasked d.service.baseUrl)
    (client : Http.Client) :
    (∃ error, d.compile client = .error error ∧
      (c.getOrBuild client d.service d.augmentation).1 = .error error) ∨
    ∃ r, d.compile client = .ok r ∧ (c.getOrBuild client d.service d.augmentation).1 = .ok r ∧
      c.Adds (c.getOrBuild client d.service d.augmentation).2 d.service.baseUrl r := by
  have hregistry := Slots.content?_take_of_none hd.registries
  have hdocument := Slots.content?_take_of_none hd.documents
  simp only [getOrBuild, DocumentCache.get, ServiceDefinition.compile, hregistry, hdocument]
  cases hfetch : Csdl.Document.fetch client d.service.baseUrl with
  | error error => exact .inl ⟨error, rfl, rfl⟩
  | ok document =>
    simp only [bind, Except.bind]
    cases hbuild : Registry.build d.service document d.augmentation with
    | error error => exact .inl ⟨error, rfl, rfl⟩
    | ok r =>
      refine .inr ⟨r, rfl, rfl, ⟨⟨(hc.documents.take _).fill _ _, (hc.registries.take _).fill _ _⟩,
        Slots.get?_fill_take hc.registries hd.registries, fun other hne hother => ⟨?_, ?_⟩⟩⟩
      · exact (Slots.get?_current_take _ _ _).trans ((if_neg hne).trans hother.documents)
      · exact (Slots.get?_current_take _ _ _).trans ((if_neg hne).trans hother.registries)

end RegistryCache

namespace Blueprint

variable {client : Http.Client} {c c' : RegistryCache} {ds : List ServiceDefinition}
  {built : List (ServiceDefinition × Registry)}

theorem registries_cons (client : Http.Client) (c : RegistryCache) (d : ServiceDefinition)
    (rest : List ServiceDefinition) :
    registries client c (d :: rest) =
      (c.getOrBuild client d.service d.augmentation).1 >>= fun r =>
        registries client (c.getOrBuild client d.service d.augmentation).2 rest >>= fun p =>
          .ok ((d, r) :: p.1, p.2) := rfl

/-- What is known of registries that were made for services at different URLs. -/
theorem of_registries_eq_ok (hc : c.Founded) (hds : ∀ d ∈ ds, c.Unasked d.service.baseUrl)
    (hnodup : (ds.map (·.service.baseUrl)).Nodup)
    (h : registries client c ds = .ok (built, c')) :
    built.map Prod.fst = ds ∧ (∀ p ∈ built, p.1.compile client = .ok p.2) ∧
      ∀ baseUrl r, c'.get? baseUrl = some r ↔
        (∃ p ∈ built, p.1.service.baseUrl = baseUrl ∧ p.2 = r) ∨ c.get? baseUrl = some r := by
  induction ds generalizing c built with
  | nil =>
    cases h
    refine ⟨rfl, List.forall_mem_nil _, fun baseUrl r => ?_⟩
    simp only [List.not_mem_nil, false_and, exists_false, false_or]
  | cons d rest ih =>
    obtain ⟨hd, hrest⟩ := List.forall_mem_cons.1 hds
    obtain ⟨hnew, hnodup⟩ := List.nodup_cons.1 hnodup
    rw [registries_cons] at h
    obtain ⟨r, hr, h⟩ := bind_eq_ok_iff.1 h
    obtain ⟨⟨built', cache⟩, hbuilt, h⟩ := bind_eq_ok_iff.1 h
    cases h
    rcases RegistryCache.getOrBuild_of_unasked hc hd client with
      ⟨error, _, heq⟩ | ⟨r', hcompile, heq, hadds⟩
    · rw [heq] at hr
      cases hr
    rw [heq] at hr
    cases hr
    have hunasked : ∀ d' ∈ rest, RegistryCache.Unasked _ d'.service.baseUrl := fun d' hd' =>
      hadds.unasked _ (fun hurl => hnew (List.mem_map.2 ⟨d', hd', hurl⟩)) (hrest d' hd')
    obtain ⟨rfl, hall, hget⟩ := ih hadds.founded hunasked hnodup hbuilt
    refine ⟨rfl, List.forall_mem_cons.2 ⟨hcompile, hall⟩, fun baseUrl r => ?_⟩
    have hnone : c.get? d.service.baseUrl = none := by
      rw [RegistryCache.get?, Slots.get?, hd.registries]
      rfl
    rw [hget, hadds.get?]
    simp only [List.exists_mem_cons_iff]
    split
    · rename_i hsame
      rw [hsame, hnone]
      simp [or_comm]
    · rename_i hother
      simp [Ne.symm hother]

theorem exists_registries (hc : c.Founded) (hds : ∀ d ∈ ds, c.Unasked d.service.baseUrl)
    (hnodup : (ds.map (·.service.baseUrl)).Nodup)
    (hcompile : ∀ d ∈ ds, ∃ r, d.compile client = .ok r) :
    ∃ built c', registries client c ds = .ok (built, c') := by
  induction ds generalizing c with
  | nil => exact ⟨[], c, rfl⟩
  | cons d rest ih =>
    obtain ⟨hd, hrest⟩ := List.forall_mem_cons.1 hds
    obtain ⟨hnew, hnodup⟩ := List.nodup_cons.1 hnodup
    obtain ⟨⟨r, hr⟩, hcompile⟩ := List.forall_mem_cons.1 hcompile
    rcases RegistryCache.getOrBuild_of_unasked hc hd client with
      ⟨error, herror, _⟩ | ⟨r', _, heq, hadds⟩
    · rw [hr] at herror
      cases herror
    have hunasked : ∀ d' ∈ rest, RegistryCache.Unasked _ d'.service.baseUrl := fun d' hd' =>
      hadds.unasked _ (fun hurl => hnew (List.mem_map.2 ⟨d', hd', hurl⟩)) (hrest d' hd')
    obtain ⟨built, c', hbuilt⟩ := ih hadds.founded hunasked hnodup hcompile
    refine ⟨(d, r') :: built, c', ?_⟩
    rw [registries_cons]
    exact bind_eq_ok_iff.2 ⟨r', heq, bind_eq_ok_iff.2 ⟨(built, c'), hbuilt, rfl⟩⟩

end Blueprint
end ODataGraph
