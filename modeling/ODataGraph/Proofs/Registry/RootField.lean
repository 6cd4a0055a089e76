import ODataGraph.Proofs.Registry.Build

/-!
The fields of the query root. Each is a singleton or lists an entity set, and takes the query
options of the entities that it lists. A selection of properties is none of these.
-/

namespace ODataGraph

open Csdl (ContainerEntry)

namespace Capabilities

variable {cs : Capabilities} {name : String} {a : Argument}

theorem exists_option_of_get? (h : cs.arguments.get? name = some a) :
    ∃ c, (c, name, a) ∈ cs.options := by
  obtain ⟨⟨c, _, _⟩, hmem, heq⟩ := List.mem_map.1 (OrderedMap.mem_of_get?_ofList h)
  cases heq
  exact ⟨c, (List.mem_filter.1 hmem).1⟩

theorem select_not_mem_arguments (cs : Capabilities) : "_select" ∉ cs.arguments.keys := by
  intro hmem
  obtain ⟨a, ha⟩ := OrderedMap.mem_keys_iff.1 hmem
  obtain ⟨c, hoption⟩ := exists_option_of_get? ha
  simp [options] at hoption

end Capabilities

namespace Roots

variable {d : Csdl.Document} {ts : Types} {roots : Roots} {name : String} {P : Field → Prop}

/-- The query options come from annotations, whether or not there is an object that has them. -/
theorem exists_listArguments (d : Csdl.Document) (ts : Types) (key : String) :
    ∃ cs : Capabilities, listArguments d (ts.map (Descriptor.annotate d)) key = cs.arguments := by
  rw [listArguments]
  split
  · rename_i o ho
    simp only [Types.object?, Option.bind_eq_bind, Option.bind_eq_some_iff, OrderedMap.get?_map,
      Option.map_eq_some_iff, Descriptor.object?_eq_some_iff] at ho
    obtain ⟨_, _, t, ⟨t', _, rfl⟩, hobject⟩ := ho
    cases t' <;> cases hobject
    exact ⟨_, rfl⟩
  · exact ⟨_, rfl⟩

/-- The field that a container entry becomes. -/
def fieldOf (d : Csdl.Document) (ts : Types) (entry : ContainerEntry) : Field :=
  let key := Csdl.localName entry.type
  match entry.kind with
  | .singleton => { type := .named key, kind := .singleton }
  | .entitySet =>
    { type := .list (.named key), kind := .entitySet, arguments := listArguments d ts key }

/-- An entry changes nothing if its type is unknown or its name taken. -/
theorem cases_addEntry (d : Csdl.Document) (ts : Types) (roots : Roots) (entry : ContainerEntry) :
    (addEntry d ts roots entry = roots ∧
      (Csdl.localName entry.type ∈ ts.keys → entry.name ∈ roots.fields.keys)) ∨
    ∃ t, ts.get? (Csdl.localName entry.type) = some t ∧ entry.name ∉ roots.fields.keys ∧
      addEntry d ts roots entry = {
        fields := roots.fields.insert entry.name (fieldOf d ts entry)
        entitySets :=
          if entry.kind = .entitySet ∧ looksLikePlural entry.name t.name then
            roots.entitySets.insert t.name entry.name
          else roots.entitySets } := by
  rw [addEntry, fieldOf]
  dsimp only
  cases ht : ts.get? (Csdl.localName entry.type) with
  | none => exact .inl ⟨rfl, fun hkey => absurd hkey (OrderedMap.get?_eq_none_iff.1 ht)⟩
  | some t =>
    dsimp only
    split
    · rename_i htaken
      exact .inl ⟨rfl, fun _ => OrderedMap.contains_iff.1 htaken⟩
    · rename_i hfree
      have hname : entry.name ∉ roots.fields.keys := fun h => hfree (OrderedMap.contains_iff.2 h)
      refine .inr ⟨t, rfl, hname, ?_⟩
      cases entry.kind <;> simp

theorem mem_keys_addEntry {entry : ContainerEntry} :
    name ∈ (addEntry d ts roots entry).fields.keys ↔ name ∈ roots.fields.keys ∨
      entry.name = name ∧ Csdl.localName entry.type ∈ ts.keys := by
  rcases cases_addEntry d ts roots entry with ⟨heq, htaken⟩ | ⟨t, ht, hfree, heq⟩
  · rw [heq]
    refine ⟨.inl, ?_⟩
    rintro (hmem | ⟨rfl, hkey⟩)
    · exact hmem
    · exact htaken hkey
  · have hkey := OrderedMap.mem_keys_iff.2 ⟨t, ht⟩
    rw [heq, OrderedMap.keys_insert, if_neg hfree, List.mem_append, List.mem_singleton,
      eq_comm (a := name), and_iff_left hkey]

theorem mem_keys_foldl_addEntry {entries : List ContainerEntry} :
    name ∈ (entries.foldl (addEntry d ts) roots).fields.keys ↔ name ∈ roots.fields.keys ∨
      ∃ entry ∈ entries, entry.name = name ∧ Csdl.localName entry.type ∈ ts.keys := by
  induction entries generalizing roots with
  | nil => exact ⟨.inl, fun h => h.elim id nofun⟩
  | cons entry rest ih =>
    simp only [List.foldl_cons, ih, mem_keys_addEntry, List.mem_cons, exists_eq_or_imp, or_assoc]

/-- The query root has a field for every entry of a container that is of a known type. -/
theorem mem_keys_ofContainer : name ∈ (ofContainer d ts).fields.keys ↔
    ∃ entry ∈ d.container, entry.name = name ∧ Csdl.localName entry.type ∈ ts.keys :=
  mem_keys_foldl_addEntry.trans (or_iff_right List.not_mem_nil)

/-- What holds of each field that is added holds of all of them. -/
theorem all_ofContainer
    (hsingleton : ∀ key, key ∈ ts.keys → P { type := .named key, kind := .singleton })
    (hset : ∀ key, key ∈ ts.keys → P {
      type := .list (.named key), kind := .entitySet, arguments := listArguments d ts key })
    {f : Field} (hf : (ofContainer d ts).fields.get? name = some f) : P f := by
  have hfield : ∀ entry : ContainerEntry, Csdl.localName entry.type ∈ ts.keys →
      P (fieldOf d ts entry) := by
    intro entry hkey
    rw [fieldOf]
    cases entry.kind with
    | singleton => exact hsingleton _ hkey
    | entitySet => exact hset _ hkey
  have hadd : ∀ roots : Roots, (∀ name f, roots.fields.get? name = some f → P f) →
      ∀ entry ∈ d.container, ∀ name f,
        (addEntry d ts roots entry).fields.get? name = some f → P f := by
    intro roots hroots entry _ name f hf
    rcases cases_addEntry d ts roots entry with ⟨heq, _⟩ | ⟨t, ht, _, heq⟩
    · rw [heq] at hf
      exact hroots name f hf
    · rw [heq, OrderedMap.get?_insert] at hf
      split at hf
      · cases hf
        exact hfield entry (OrderedMap.mem_keys_iff.2 ⟨t, ht⟩)
      · exact hroots name f hf
  have hempty : ∀ name f, ({} : Roots).fields.get? name = some f → P f := by rintro _ _ ⟨⟩
  exact List.foldlRecOn (motive := fun roots : Roots => ∀ name f,
    roots.fields.get? name = some f → P f) d.container (addEntry d ts) hempty hadd name f hf

end Roots

/-- No entity set and no singleton takes a selection of properties as an argument. -/
theorem Registry.select_not_mem_arguments {service : Service} {d : Csdl.Document} {r : Registry}
    (hr : build service d = .ok r) {name : String} {f : Field}
    (hf : r.queryRoot.fields.get? name = some f) : "_select" ∉ f.arguments.keys := by
  obtain ⟨h, _, hmade⟩ := exists_madeFrom_of_build hr
  rw [hmade.queryRoot] at hf
  apply Roots.all_ofContainer (P := fun f => "_select" ∉ f.arguments.keys) ?_ ?_ hf
  · intro key _
    exact List.not_mem_nil
  · intro key _
    obtain ⟨cs, hcs⟩ := Roots.exists_listArguments d (Types.ofDocument service d h) key
    rw [hmade.types, hcs]
    exact cs.select_not_mem_arguments

end ODataGraph
