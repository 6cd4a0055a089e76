import Mathlib.Data.List.Induction
import ODataGraph.Proofs.Execution.CanonicalUrl
import ODataGraph.Proofs.Registry.TypeName

/-!
The homes of types. Of the entity sets that became fields of the query root and look like the plural
of a type the last one is its home, and the canonical URLs of its objects lead there.
-/

namespace ODataGraph

open Csdl (ContainerEntry)

theorem occursIn_iff {part cs : List Char} : occursIn part cs = true ↔ part <:+: cs := by
  induction cs with
  | nil => rw [occursIn, List.isEmpty_iff, List.infix_nil]
  | cons c cs ih =>
    rw [occursIn, Bool.or_eq_true, List.isPrefixOf_iff_prefix, ih, List.infix_cons_iff]

/-- The name of a set without its last three characters occurs in the name of a type. -/
def LooksLikePlural (set typeName : String) : Prop :=
  ∃ stem ending, set.toList = stem ++ ending ∧ ending.length = 3 ∧ stem <:+: typeName.toList

theorem looksLikePlural_iff {set typeName : String} :
    looksLikePlural set typeName = true ↔ LooksLikePlural set typeName := by
  rw [looksLikePlural, Bool.and_eq_true, decide_eq_true_eq, occursIn_iff, ← String.length_toList]
  constructor
  · rintro ⟨hlength, hstem⟩
    refine ⟨_, set.toList.drop (set.toList.length - 3), (List.take_append_drop _ _).symm, ?_, hstem⟩
    rw [List.length_drop]
    omega
  · rintro ⟨stem, ending, hset, hending, hstem⟩
    have hlength : set.toList.length - 3 = stem.length := by
      rw [hset, List.length_append]
      omega
    refine ⟨?_, ?_⟩
    · rw [hset, List.length_append]
      omega
    · rwa [hlength, hset, List.take_left]

namespace Roots

variable {d : Csdl.Document} {ts : Types} {entries : List ContainerEntry}
variable {last entry : ContainerEntry} {i : Nat} {name typeName set : String} {f : Field}

/-- The roots that entries of a container make. -/
def ofEntries (d : Csdl.Document) (ts : Types) (entries : List ContainerEntry) : Roots :=
  entries.foldl (addEntry d ts) {}

theorem ofEntries_concat (d : Csdl.Document) (ts : Types) (entries : List ContainerEntry)
    (last : ContainerEntry) :
    ofEntries d ts (entries ++ [last]) = addEntry d ts (ofEntries d ts entries) last := by
  rw [ofEntries, List.foldl_append]
  rfl

theorem mem_keys_ofEntries : name ∈ (ofEntries d ts entries).fields.keys ↔
    ∃ entry ∈ entries, entry.name = name ∧ Csdl.localName entry.type ∈ ts.keys :=
  mem_keys_foldl_addEntry.trans (or_iff_right List.not_mem_nil)

/-- The entry at a position becomes a field: its type is known, and no entry of a known type that
stands before it has its name. -/
structure BecomesField (ts : Types) (entries : List ContainerEntry) (i : Nat)
    (entry : ContainerEntry) : Prop where
  stands : entries[i]? = some entry
  known : Csdl.localName entry.type ∈ ts.keys
  first : ∀ other ∈ entries.take i, Csdl.localName other.type ∈ ts.keys → other.name ≠ entry.name

theorem becomesField_concat : BecomesField ts (entries ++ [last]) i entry ↔
    BecomesField ts entries i entry ∨ i = entries.length ∧ entry = last ∧
      Csdl.localName last.type ∈ ts.keys ∧ last.name ∉ (ofEntries d ts entries).fields.keys := by
  have hfree : last.name ∉ (ofEntries d ts entries).fields.keys ↔
      ∀ other ∈ entries, Csdl.localName other.type ∈ ts.keys → other.name ≠ last.name := by
    simp only [mem_keys_ofEntries, not_exists, not_and]
    exact forall₂_congr fun _ _ => imp_not_comm
  rw [hfree]
  constructor
  · rintro ⟨hstands, hknown, hfirst⟩
    rcases Nat.lt_trichotomy i entries.length with hlt | rfl | hgt
    · rw [List.getElem?_append_left hlt] at hstands
      rw [List.take_append_of_le_length (Nat.le_of_lt hlt)] at hfirst
      exact .inl ⟨hstands, hknown, hfirst⟩
    · rw [List.getElem?_concat_length] at hstands
      rw [List.take_left] at hfirst
      cases hstands
      exact .inr ⟨rfl, rfl, hknown, hfirst⟩
    · rw [List.getElem?_eq_none (by rw [List.length_append]; exact hgt)] at hstands
      cases hstands
  · rintro (⟨hstands, hknown, hfirst⟩ | ⟨rfl, rfl, hknown, hfirst⟩)
    · have hlt := (List.getElem?_eq_some_iff.1 hstands).1
      refine ⟨?_, hknown, ?_⟩
      · rw [List.getElem?_append_left hlt, hstands]
      · rwa [List.take_append_of_le_length (Nat.le_of_lt hlt)]
    · exact ⟨List.getElem?_concat_length, hknown, by rwa [List.take_left]⟩

theorem BecomesField.name_mem (h : BecomesField ts entries i entry) :
    entry.name ∈ (ofEntries d ts entries).fields.keys :=
  mem_keys_ofEntries.2 ⟨entry, List.mem_of_getElem? h.stands, rfl, h.known⟩

/-- The query root has exactly the fields that entries become. -/
theorem get?_fields_ofEntries : (ofEntries d ts entries).fields.get? name = some f ↔
    ∃ i entry, BecomesField ts entries i entry ∧ entry.name = name ∧ f = fieldOf d ts entry := by
  -- entries are added at the end, so what is known is the fields that those before it make
  induction entries using List.reverseRecOn with
  | nil => exact ⟨nofun, fun ⟨_, _, h, _⟩ => nomatch h.stands⟩
  | append_singleton entries last ih =>
    simp only [ofEntries_concat, becomesField_concat (d := d)]
    rcases cases_addEntry d ts (ofEntries d ts entries) last with
      ⟨heq, htaken⟩ | ⟨t, ht, hfree, heq⟩
    · rw [heq, ih]
      constructor
      · rintro ⟨i, entry, hfield, h⟩
        exact ⟨i, entry, .inl hfield, h⟩
      · rintro ⟨i, entry, hfield | ⟨_, _, hknown, hfree⟩, h⟩
        · exact ⟨i, entry, hfield, h⟩
        · exact absurd (htaken hknown) hfree
    · rw [heq, OrderedMap.get?_insert]
      have hknown := OrderedMap.mem_keys_iff.2 ⟨t, ht⟩
      split
      · rename_i hname
        subst hname
        constructor
        · rintro ⟨⟩
          exact ⟨_, last, .inr ⟨rfl, rfl, hknown, hfree⟩, rfl, rfl⟩
        · rintro ⟨i, entry, hfield | ⟨_, rfl, _⟩, hname, rfl⟩
          · exact absurd (hname ▸ hfield.name_mem) hfree
          · rfl
      · rename_i hname
        rw [ih]
        constructor
        · rintro ⟨i, entry, hfield, h⟩
          exact ⟨i, entry, .inl hfield, h⟩
        · rintro ⟨i, entry, hfield | ⟨_, rfl, _⟩, rfl, h⟩
          · exact ⟨i, entry, hfield, rfl, h⟩
          · exact absurd rfl hname

/-- The entry at a position is an entity set that became a field, and looks like the plural of its
type, which has a name. -/
structure IsHome (ts : Types) (entries : List ContainerEntry) (typeName : String) (i : Nat)
    (entry : ContainerEntry) : Prop where
  field : BecomesField ts entries i entry
  kind : entry.kind = .entitySet
  type : ∃ t, ts.get? (Csdl.localName entry.type) = some t ∧ t.name = typeName
  plural : LooksLikePlural entry.name typeName

/-- The last entry is the home of a type. -/
def EndsInHome (d : Csdl.Document) (ts : Types) (entries : List ContainerEntry)
    (last : ContainerEntry) (typeName : String) : Prop :=
  last.name ∉ (ofEntries d ts entries).fields.keys ∧ last.kind = .entitySet ∧
    (∃ t, ts.get? (Csdl.localName last.type) = some t ∧ t.name = typeName) ∧
    LooksLikePlural last.name typeName

theorem isHome_concat : IsHome ts (entries ++ [last]) typeName i entry ↔
    IsHome ts entries typeName i entry ∨
      i = entries.length ∧ entry = last ∧ EndsInHome d ts entries last typeName := by
  constructor
  · rintro ⟨hfield, hkind, htype, hplural⟩
    rcases (becomesField_concat (d := d)).1 hfield with hfield | ⟨rfl, rfl, _, hfree⟩
    · exact .inl ⟨hfield, hkind, htype, hplural⟩
    · exact .inr ⟨rfl, rfl, hfree, hkind, htype, hplural⟩
  · rintro (⟨hfield, hkind, htype, hplural⟩ | ⟨rfl, rfl, hfree, hkind, ⟨t, ht, hname⟩, hplural⟩)
    · exact ⟨(becomesField_concat (d := d)).2 (.inl hfield), hkind, htype, hplural⟩
    · have hknown := OrderedMap.mem_keys_iff.2 ⟨t, ht⟩
      exact ⟨(becomesField_concat (d := d)).2 (.inr ⟨rfl, rfl, hknown, hfree⟩), hkind,
        ⟨t, ht, hname⟩, hplural⟩

/-- One step: an entry that is a home takes the place of an earlier one. -/
theorem get?_entitySets_addEntry [Decidable (EndsInHome d ts entries last typeName)] :
    (addEntry d ts (ofEntries d ts entries) last).entitySets.get? typeName =
      if EndsInHome d ts entries last typeName then some last.name
      else (ofEntries d ts entries).entitySets.get? typeName := by
  rcases cases_addEntry d ts (ofEntries d ts entries) last with ⟨heq, htaken⟩ | ⟨t, ht, hfree, heq⟩
  · rw [heq, if_neg]
    rintro ⟨hfree, _, ⟨t, ht, _⟩, _⟩
    exact hfree (htaken (OrderedMap.mem_keys_iff.2 ⟨t, ht⟩))
  · have hhome : EndsInHome d ts entries last typeName ↔
        (last.kind = .entitySet ∧ looksLikePlural last.name t.name = true) ∧ typeName = t.name := by
      rw [EndsInHome, ht, looksLikePlural_iff]
      constructor
      · rintro ⟨_, hkind, ⟨_, ⟨⟩, rfl⟩, hplural⟩
        exact ⟨⟨hkind, hplural⟩, rfl⟩
      · rintro ⟨⟨hkind, hplural⟩, rfl⟩
        exact ⟨hfree, hkind, ⟨t, rfl, rfl⟩, hplural⟩
    rw [heq]
    dsimp only
    split
    · rename_i hset
      simp only [OrderedMap.get?_insert, hhome, hset, and_self, true_and]
    · rename_i hset
      rw [if_neg fun h => hset (hhome.1 h).1]

/-- The home of a type is the last of its entity sets that look like its plural. -/
theorem get?_entitySets_ofEntries :
    (ofEntries d ts entries).entitySets.get? typeName = some set ↔
      ∃ i entry, IsHome ts entries typeName i entry ∧ entry.name = set ∧
        ∀ j other, i < j → ¬ IsHome ts entries typeName j other := by
  classical
  induction entries using List.reverseRecOn with
  | nil => exact ⟨nofun, fun ⟨_, _, h, _⟩ => nomatch h.field.stands⟩
  | append_singleton entries last ih =>
    rw [ofEntries_concat, get?_entitySets_addEntry]
    simp only [isHome_concat (d := d)]
    have hbefore : ∀ {i entry}, IsHome ts entries typeName i entry → i < entries.length :=
      fun h => (List.getElem?_eq_some_iff.1 h.field.stands).1
    split
    · rename_i hlast
      constructor
      · rintro ⟨⟩
        refine ⟨_, last, .inr ⟨rfl, rfl, hlast⟩, rfl, fun j other hj => ?_⟩
        rintro (hhome | ⟨rfl, _⟩)
        · exact Nat.lt_asymm hj (hbefore hhome)
        · exact Nat.lt_irrefl _ hj
      · rintro ⟨i, entry, hhome | ⟨_, rfl, _⟩, rfl, hnone⟩
        · exact absurd (.inr ⟨rfl, rfl, hlast⟩) (hnone _ last (hbefore hhome))
        · rfl
    · rename_i hlast
      simp only [hlast, and_false, or_false]
      exact ih

end Roots

namespace Registry

variable {service : Service} {d : Csdl.Document} {r : Registry}

theorem ofEntries_of_build (hr : build service d = .ok r) :
    r.queryRoot.fields = (Roots.ofEntries d r.types d.container).fields ∧
      r.entitySets = (Roots.ofEntries d r.types d.container).entitySets := by
  obtain ⟨_, _, hmade⟩ := exists_madeFrom_of_build hr
  exact ⟨congrArg ObjectType.fields hmade.queryRoot, hmade.entitySets⟩

/-- The home of a type is the last entity set that became a field of the query root, lists the type
and looks like its plural. So a canonical URL leads to a set that the query root lists the objects
of the type of the object from. -/
theorem homes_of_build (hr : build service d = .ok r) :
    (∀ name f, r.queryRoot.fields.get? name = some f ↔
      ∃ i entry, Roots.BecomesField r.types d.container i entry ∧ entry.name = name ∧
        f = Roots.fieldOf d r.types entry) ∧
    (∀ typeName set, r.entitySets.get? typeName = some set ↔
      ∃ i entry, Roots.IsHome r.types d.container typeName i entry ∧ entry.name = set ∧
        ∀ j other, i < j → ¬ Roots.IsHome r.types d.container typeName j other) ∧
    ∀ declared data origin e url, Entity.materialize r declared data origin = .ok e →
      e.canonicalUrl = some url →
      ∃ key set id f, Entity.Names r declared data key ∧ Entity.InSet r declared data set id ∧
        url = Url.plain r.service.baseUrl set id ∧
        r.queryRoot.fields.get? set = some f ∧ f.kind = .entitySet ∧
        f.type = .list (.named key) := by
  obtain ⟨hfields, hsets⟩ := ofEntries_of_build hr
  rw [hfields, hsets]
  refine ⟨fun _ _ => Roots.get?_fields_ofEntries, fun _ _ => Roots.get?_entitySets_ofEntries, ?_⟩
  intro declared data origin e url he hurl
  obtain ⟨set, id, hinSet, rfl⟩ := (Entity.canonicalUrl_eq_some_iff he).1 hurl
  obtain ⟨key, type, hnames, htype, hset⟩ := hinSet.set
  rw [hsets] at hset
  obtain ⟨i, entry, ⟨hfield, hkind, ⟨t, ht, hname⟩, _⟩, rfl, _⟩ :=
    Roots.get?_entitySets_ofEntries.1 hset
  -- the set lists a type of the same name, which is the same type
  have hkey : Csdl.localName entry.type = key := by
    rw [name_of_get? hr ht, name_of_get? hr htype] at hname
    exact Service.typeName_inj.1 hname
  refine ⟨key, entry.name, id, Roots.fieldOf d r.types entry, hnames, hinSet, rfl, ?_, ?_⟩
  · exact Roots.get?_fields_ofEntries.2 ⟨i, entry, hfield, rfl, rfl⟩
  · rw [Roots.fieldOf, hkind, hkey]
    exact ⟨rfl, rfl⟩

end Registry

/-! Pets in several sets, two of which look like their plural. -/

namespace Pets

def crowded : Csdl.Document where
  structuredTypes := document.structuredTypes
  container := [
    { kind := .entitySet, name := "Pets", type := "Zoo.Pet" },
    { kind := .entitySet, name := "Petunias", type := "Zoo.Plant" },
    { kind := .singleton, name := "Petra", type := "Zoo.Pet" },
    { kind := .entitySet, name := "Peters", type := "Zoo.Pet" },
    { kind := .entitySet, name := "Pets", type := "Zoo.Pet" },
    { kind := .entitySet, name := "Animals", type := "Zoo.Pet" }]

def crowdedRegistry : Registry :=
  match Registry.build Kennel.service crowded with
  | .ok r => r
  | .error _ => registry

theorem build_crowded : Registry.build Kennel.service crowded = .ok crowdedRegistry := by rfl

end Pets

/-- The last set whose name looks like a plural is the home, although it is not the last set. -/
theorem home_of_pets :
    Registry.build Kennel.service Pets.crowded = .ok Pets.crowdedRegistry ∧
    ∃ i entry, Roots.IsHome Pets.crowdedRegistry.types Pets.crowded.container "zoo_Pet" i entry ∧
      entry.name = "Peters" ∧ ∀ j other, i < j →
        ¬ Roots.IsHome Pets.crowdedRegistry.types Pets.crowded.container "zoo_Pet" j other := by
  obtain ⟨_, hsets, _⟩ := Registry.homes_of_build Pets.build_crowded
  exact ⟨Pets.build_crowded, (hsets "zoo_Pet" "Peters").1 (by rfl)⟩

end ODataGraph
