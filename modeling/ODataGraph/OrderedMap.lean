/-! Finite maps that keep the order in which their keys came. -/

namespace ODataGraph

/-- Associations with distinct keys, oldest key first. -/
structure OrderedMap (α : Type u) (β : Type v) where
  entries : List (α × β)
  nodup : (entries.map Prod.fst).Nodup

namespace OrderedMap

variable {α : Type u} {β : Type v} {γ : Type w}

def empty : OrderedMap α β := ⟨[], List.nodup_nil⟩

instance : EmptyCollection (OrderedMap α β) := ⟨empty⟩

instance : Inhabited (OrderedMap α β) := ⟨empty⟩

def keys (m : OrderedMap α β) : List α := m.entries.map Prod.fst

def values (m : OrderedMap α β) : List β := m.entries.map Prod.snd

def size (m : OrderedMap α β) : Nat := m.entries.length

def isEmpty (m : OrderedMap α β) : Bool := m.entries.isEmpty

def map (m : OrderedMap α β) (f : α → β → γ) : OrderedMap α γ :=
  ⟨m.entries.map fun e => (e.1, f e.1 e.2), by
    simpa [List.map_map, Function.comp_def] using m.nodup⟩

def filter (m : OrderedMap α β) (p : α → β → Bool) : OrderedMap α β :=
  ⟨m.entries.filter fun e => p e.1 e.2,
    List.Sublist.nodup (List.filter_sublist.map Prod.fst) m.nodup⟩

@[simp] theorem keys_map (m : OrderedMap α β) (f : α → β → γ) : (m.map f).keys = m.keys := by
  simp [keys, map, List.map_map, Function.comp_def]

theorem ext {m n : OrderedMap α β} (h : m.entries = n.entries) : m = n := by
  cases m
  cases n
  cases h
  rfl

variable [DecidableEq α]

def get? (m : OrderedMap α β) (k : α) : Option β := m.entries.lookup k

def contains (m : OrderedMap α β) (k : α) : Bool := m.keys.contains k

/-- Replaces the value of a key, which keeps its place; a new key comes last. -/
def insert (m : OrderedMap α β) (k : α) (v : β) : OrderedMap α β :=
  if h : k ∈ m.keys then m.map fun k' v' => if k' = k then v else v'
  else ⟨m.entries ++ [(k, v)], by
    have hk : ∀ a ∈ m.entries.map Prod.fst, a ≠ k := fun a ha hak => h (hak ▸ ha)
    simpa [List.nodup_append, m.nodup] using hk⟩

def insertNew (m : OrderedMap α β) (k : α) (v : β) : OrderedMap α β :=
  if m.contains k then m else m.insert k v

def erase (m : OrderedMap α β) (k : α) : OrderedMap α β := m.filter fun k' _ => k' ≠ k

def modify (m : OrderedMap α β) (k : α) (f : β → β) : OrderedMap α β :=
  m.map fun k' v => if k' = k then f v else v

def ofList (entries : List (α × β)) : OrderedMap α β :=
  entries.foldl (fun m e => m.insert e.1 e.2) ∅

/-- Equality as maps: the order of keys does not count. -/
instance [BEq β] : BEq (OrderedMap α β) :=
  ⟨fun m n => m.size == n.size && m.entries.all fun e =>
    match n.get? e.1 with
    | some v => e.2 == v
    | none => false⟩

theorem keys_insert (m : OrderedMap α β) (k : α) (v : β) :
    (m.insert k v).keys = if k ∈ m.keys then m.keys else m.keys ++ [k] := by
  by_cases h : k ∈ m.keys
  · simp [insert, h]
  · rw [insert, dif_neg h, if_neg h]
    simp [keys]

@[simp] theorem contains_iff {m : OrderedMap α β} {k : α} : m.contains k = true ↔ k ∈ m.keys := by
  simp [contains]

@[simp] theorem contains_eq_false_iff {m : OrderedMap α β} {k : α} :
    m.contains k = false ↔ k ∉ m.keys := by
  simp [contains]

theorem get?_eq_none_iff {m : OrderedMap α β} {k : α} : m.get? k = none ↔ k ∉ m.keys := by
  simp only [get?, List.lookup_eq_none_iff, keys, List.mem_map]
  grind

theorem mem_keys_iff {m : OrderedMap α β} {k : α} : k ∈ m.keys ↔ ∃ v, m.get? k = some v := by
  rw [← Option.ne_none_iff_exists', ne_eq, get?_eq_none_iff, Classical.not_not]

theorem mem_iff_lookup_of_nodup {l : List (α × β)} (hl : (l.map Prod.fst).Nodup) {k : α} {v : β} :
    (k, v) ∈ l ↔ l.lookup k = some v := by
  induction l with
  | nil => simp
  | cons e rest ih =>
    obtain ⟨key, value⟩ := e
    obtain ⟨hkey, hrest⟩ := List.nodup_cons.1 hl
    rw [List.mem_cons, ih hrest, List.lookup_cons]
    by_cases hk : k = key
    · subst hk
      have hnone : rest.lookup k = none := by
        rw [List.lookup_eq_none_iff]
        intro p hp
        exact bne_iff_ne.2 fun h => hkey (List.mem_map.2 ⟨p, hp, h.symm⟩)
      simp [hnone, eq_comm]
    · simp [beq_false_of_ne hk, hk]

theorem mem_entries_iff {m : OrderedMap α β} {k : α} {v : β} :
    (k, v) ∈ m.entries ↔ m.get? k = some v :=
  mem_iff_lookup_of_nodup m.nodup

theorem mem_values_of_get? {m : OrderedMap α β} {k : α} {v : β} (h : m.get? k = some v) :
    v ∈ m.values :=
  List.mem_map_of_mem (f := Prod.snd) (mem_entries_iff.2 h)

private theorem lookup_map_value (f : α → β → γ) (entries : List (α × β)) (k : α) :
    (entries.map fun e => (e.1, f e.1 e.2)).lookup k = (entries.lookup k).map (f k) := by
  induction entries with
  | nil => rfl
  | cons e rest ih =>
    obtain ⟨key, value⟩ := e
    simp only [List.map_cons, List.lookup_cons]
    by_cases h : k = key
    · simp [h]
    · simp [beq_false_of_ne h, ih]

@[simp] theorem get?_map (m : OrderedMap α β) (f : α → β → γ) (k : α) :
    (m.map f).get? k = (m.get? k).map (f k) :=
  lookup_map_value f m.entries k

theorem get?_insert (m : OrderedMap α β) (k k' : α) (v : β) :
    (m.insert k v).get? k' = if k' = k then some v else m.get? k' := by
  by_cases h : k ∈ m.keys
  · rw [insert, dif_pos h, get?_map]
    by_cases hk : k' = k
    · subst hk
      cases hv : m.get? k' with
      | none => exact absurd h (get?_eq_none_iff.1 hv)
      | some old => simp
    · simp [hk]
  · rw [insert, dif_neg h]
    have hn : m.entries.lookup k = none := get?_eq_none_iff.2 h
    by_cases hk : k' = k
    · subst hk
      simp [get?, List.lookup_append, hn]
    · simp [get?, List.lookup_append, hk, List.lookup_cons, beq_false_of_ne hk]

theorem get?_erase (m : OrderedMap α β) (k k' : α) :
    (m.erase k).get? k' = if k' = k then none else m.get? k' := by
  by_cases hk : k' = k
  · subst hk
    simp [get?_eq_none_iff, erase, filter, keys]
  · simp only [get?, erase, filter, if_neg hk]
    induction m.entries with
    | nil => rfl
    | cons e rest ih =>
      obtain ⟨key, value⟩ := e
      rw [List.filter_cons]
      by_cases h : key = k
      · rw [if_neg (by simp [h]), ih, h, List.lookup_cons, beq_false_of_ne hk]
      · rw [if_pos (by simp [h]), List.lookup_cons, List.lookup_cons, ih]

theorem get?_modify (m : OrderedMap α β) (k k' : α) (f : β → β) :
    (m.modify k f).get? k' = if k' = k then (m.get? k').map f else m.get? k' := by
  rw [modify, get?_map]
  by_cases h : k' = k <;> simp [h]

theorem get?_insertNew (m : OrderedMap α β) (k k' : α) (v : β) :
    (m.insertNew k v).get? k' = (m.get? k').or (if k' = k then some v else none) := by
  rw [insertNew]
  split
  · rename_i hc
    obtain ⟨w, hw⟩ := mem_keys_iff.1 (contains_iff.1 hc)
    by_cases hk : k' = k
    · simp [hk, hw]
    · simp [hk]
  · rename_i hc
    have hnone : m.get? k = none := get?_eq_none_iff.2 fun h => hc (contains_iff.2 h)
    rw [get?_insert]
    by_cases hk : k' = k
    · simp [hk, hnone]
    · simp [hk]

theorem entries_insert_of_not_mem {m : OrderedMap α β} {k : α} (h : k ∉ m.keys) (v : β) :
    (m.insert k v).entries = m.entries ++ [(k, v)] := by
  rw [insert, dif_neg h]

private theorem entries_foldl_insert {l : List (α × β)} {m : OrderedMap α β}
    (h : ((m.entries ++ l).map Prod.fst).Nodup) :
    (l.foldl (fun m e => m.insert e.1 e.2) m).entries = m.entries ++ l := by
  induction l generalizing m with
  | nil => simp
  | cons e rest ih =>
    have hk : e.1 ∉ m.keys := by
      rw [List.map_append, List.nodup_append] at h
      exact fun hmem => h.2.2 _ hmem _ List.mem_cons_self rfl
    have hentries := entries_insert_of_not_mem hk e.2
    rw [List.foldl_cons, ih (by simpa [hentries] using h), hentries]
    simp

theorem entries_ofList {l : List (α × β)} (h : (l.map Prod.fst).Nodup) :
    (ofList l).entries = l :=
  entries_foldl_insert (m := ∅) h

/-- Of inserted entries with one key the last one counts. -/
theorem get?_foldl_insert (m : OrderedMap α β) (l : List (α × β)) (k : α) :
    (l.foldl (fun m e => m.insert e.1 e.2) m).get? k = (l.reverse.lookup k).or (m.get? k) := by
  induction l generalizing m with
  | nil => rfl
  | cons e rest ih =>
    have hlast : [e].lookup k = if k = e.1 then some e.2 else none := by
      rw [List.lookup_cons]
      by_cases h : k = e.1
      · simp [h]
      · simp [h, beq_false_of_ne h]
    rw [List.foldl_cons, ih, get?_insert, List.reverse_cons, List.lookup_append, Option.or_assoc,
      hlast]
    split <;> rfl

theorem get?_ofList (l : List (α × β)) (k : α) : (ofList l).get? k = l.reverse.lookup k :=
  (get?_foldl_insert ∅ l k).trans (Option.or_none)

theorem get?_ofList_map (f : β → γ) (l : List (α × β)) (k : α) :
    (ofList (l.map fun e => (e.1, f e.2))).get? k = ((ofList l).get? k).map f := by
  rw [get?_ofList, get?_ofList, ← List.map_reverse]
  exact lookup_map_value (fun _ => f) l.reverse k

theorem mem_of_get?_foldl_insert {m : OrderedMap α β} {l : List (α × β)} {k : α} {v : β}
    (h : (l.foldl (fun m e => m.insert e.1 e.2) m).get? k = some v) :
    (k, v) ∈ l ∨ m.get? k = some v := by
  rw [get?_foldl_insert, Option.or_eq_some_iff] at h
  refine h.imp (fun hl => ?_) And.right
  obtain ⟨before, after, hl, _⟩ := List.lookup_eq_some_iff.1 hl
  exact List.mem_reverse.1 (hl ▸ List.mem_append_right _ List.mem_cons_self)

theorem mem_of_get?_ofList {l : List (α × β)} {k : α} {v : β} (h : (ofList l).get? k = some v) :
    (k, v) ∈ l :=
  (mem_of_get?_foldl_insert h).resolve_right (by simp [get?, EmptyCollection.emptyCollection, empty])

/-- Adds entries one after the other, each unless its key is there already. -/
def addNew (m : OrderedMap α β) (entries : List (α × β)) : OrderedMap α β :=
  entries.foldl (fun m e => m.insertNew e.1 e.2) m

theorem addNew_append (m : OrderedMap α β) (l₁ l₂ : List (α × β)) :
    m.addNew (l₁ ++ l₂) = (m.addNew l₁).addNew l₂ :=
  List.foldl_append

theorem get?_addNew (m : OrderedMap α β) (l : List (α × β)) (k : α) :
    (m.addNew l).get? k = (m.get? k).or (l.lookup k) := by
  induction l generalizing m with
  | nil => simp [addNew]
  | cons e rest ih =>
    have hcons : m.addNew (e :: rest) = (m.insertNew e.1 e.2).addNew rest := rfl
    rw [hcons, ih, get?_insertNew, List.lookup_cons]
    by_cases h : k = e.1
    · simp [h]
    · simp [h, beq_false_of_ne h]

end OrderedMap

end ODataGraph
