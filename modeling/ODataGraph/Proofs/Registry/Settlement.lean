import ODataGraph.Proofs.Registry.Contribution

/-!
Settling objects without declared fields. As long as every union has a member that is no base
variant, no union is given up, and those base variants that are empty are all that is left out.
-/

namespace ODataGraph

/-- Whether a key could be that of a base variant. -/
def isBaseKey (key : String) : Bool := (Text.dropEnd? baseEnding key).isSome

theorem isBaseKey_iff {key : String} : isBaseKey key = true ↔ IsBaseKey key := by
  simp only [isBaseKey, Option.isSome_iff_exists, dropEnd?_baseEnding, IsBaseKey]

def Descriptor.addPlaceholder : Descriptor → Descriptor
  | .object o => .object { o with fields := o.fields.insert placeholderField Types.placeholder }
  | t => t

/-- A type without the members of unions that are left out. -/
def Descriptor.leave (gone : List String) : Descriptor → Descriptor
  | .union u => .union { u with members := u.members.filter fun m => !gone.contains m }
  | t => t

namespace Types

variable {ts : Types} {key name : String}

theorem get?_addPlaceholder (ts : Types) (key k : String) :
    (ts.addPlaceholder key).get? k =
      if k = key then (ts.get? k).map Descriptor.addPlaceholder else ts.get? k :=
  OrderedMap.get?_modify _ _ _ _

theorem settle_of_not_isBaseKey (h : ¬ IsBaseKey key) : ts.settle key = ts.addPlaceholder key := by
  rw [settle, dropEnd?_eq_none h]
  rcases (ts.addPlaceholder key).get? key with _ | (_ | _ | _) <;> rfl

/-- What settling relies on: every base variant belongs to a union, and unions have distinct
members, one of which is no base variant. -/
structure Settleable (ts : Types) : Prop where
  union_of_base : ∀ {name o}, ts.get? (baseKey name) = some (.object o) →
    ∃ u, ts.get? name = some (.union u)
  members : ∀ {key u}, ts.get? key = some (.union u) →
    u.members.Nodup ∧ ∃ m ∈ u.members, ¬ IsBaseKey m

theorem get?_settle_baseKey (hs : ts.Settleable) {o : ObjectType}
    (ho : ts.get? (baseKey name) = some (.object o)) (k : String) :
    (ts.settle (baseKey name)).get? k =
      if k = baseKey name then none else (ts.get? k).map (leaveUnion (baseKey name)) := by
  obtain ⟨u, hu⟩ := hs.union_of_base ho
  obtain ⟨_, m, hm, hnot⟩ := hs.members hu
  have hne : name ≠ baseKey name := by
    intro heq
    rw [← heq, hu] at ho
    cases ho
  have hunion : (ts.addPlaceholder (baseKey name)).unionOfBaseKey? (baseKey name) = some u := by
    rw [unionOfBaseKey?, dropEnd?_baseEnding.2 rfl]
    simp only [Option.bind_eq_bind, Option.bind_some, get?_addPlaceholder, if_neg hne, hu]
  have hmembers : u.members ≠ [baseKey name] := by
    intro heq
    rw [heq, List.mem_singleton] at hm
    exact hnot (hm ▸ isBaseKey_baseKey name)
  have hget : (ts.addPlaceholder (baseKey name)).get? (baseKey name) =
      some (Descriptor.addPlaceholder (.object o)) := by
    rw [get?_addPlaceholder, if_pos rfl, ho, Option.map_some]
  rw [settle]
  simp only [hget, dropEnd?_baseEnding.2 rfl, hunion, Descriptor.addPlaceholder, if_neg hmembers]
  rw [OrderedMap.get?_map, OrderedMap.get?_erase]
  by_cases hk : k = baseKey name
  · rw [if_pos hk, if_pos hk, Option.map_none]
  · rw [if_neg hk, if_neg hk, get?_addPlaceholder, if_neg hk]

theorem leaveUnion_eq_leave {t : Descriptor} (h : ∀ u, t = .union u → u.members.Nodup) :
    leaveUnion key t = t.leave [key] := by
  cases t with
  | union u =>
    have hfilter := (h u rfl).erase_eq_filter key
    simp only [leaveUnion, Descriptor.leave, hfilter]
    congr 2
    refine List.filter_congr fun m _ => ?_
    by_cases hm : m = key <;> simp [hm]
  | enum e => rfl
  | object o => rfl

theorem isObject_leave {gone : List String} {t : Descriptor} {o : ObjectType} :
    t.leave gone = .object o ↔ t = .object o := by
  cases t <;> simp [Descriptor.leave]

/-- One step: an empty object gets a placeholder, or is left out as a base variant. -/
theorem get?_settle (hs : ts.Settleable) {o : ObjectType} (ho : ts.get? key = some (.object o))
    (k : String) :
    (ts.settle key).get? k =
      if isBaseKey key = true then
        if k = key then none else (ts.get? k).map (·.leave [key])
      else if k = key then (ts.get? k).map Descriptor.addPlaceholder else ts.get? k := by
  by_cases hkey : IsBaseKey key
  · rw [if_pos (isBaseKey_iff.2 hkey)]
    obtain ⟨name, rfl⟩ := hkey
    rw [get?_settle_baseKey hs ho]
    by_cases hk : k = baseKey name
    · rw [if_pos hk, if_pos hk]
    · rw [if_neg hk, if_neg hk]
      cases ht : ts.get? k with
      | none => rfl
      | some t =>
        rw [Option.map_some, Option.map_some, leaveUnion_eq_leave]
        rintro u rfl
        exact (hs.members ht).1
  · rw [if_neg (fun h => hkey (isBaseKey_iff.1 h)), settle_of_not_isBaseKey hkey,
      get?_addPlaceholder]

/-- What is an object after a step was one before. -/
theorem exists_object_of_settle (hs : ts.Settleable) {o o' : ObjectType} {k : String}
    (ho : ts.get? key = some (.object o)) (hk : (ts.settle key).get? k = some (.object o')) :
    ∃ o, ts.get? k = some (.object o) := by
  rw [get?_settle hs ho] at hk
  split at hk
  · split at hk
    · cases hk
    · obtain ⟨t, ht, hleave⟩ := Option.map_eq_some_iff.1 hk
      exact ⟨o', by rw [ht, isObject_leave.1 hleave]⟩
  · split at hk
    · rename_i heq
      exact ⟨o, heq ▸ ho⟩
    · exact ⟨o', hk⟩

theorem get?_settle_of_union (hs : ts.Settleable) {o : ObjectType} {u : UnionType} {k : String}
    (ho : ts.get? key = some (.object o)) (hu : ts.get? k = some (.union u)) :
    (ts.settle key).get? k =
      some ((Descriptor.union u).leave (if isBaseKey key = true then [key] else [])) := by
  have hne : k ≠ key := by
    rintro rfl
    rw [hu] at ho
    cases ho
  rw [get?_settle hs ho, if_neg hne, if_neg hne, hu]
  split
  · rfl
  · simp [Descriptor.leave]

theorem Settleable.settle (hs : ts.Settleable) {o : ObjectType}
    (ho : ts.get? key = some (.object o)) : (ts.settle key).Settleable where
  union_of_base hbase := by
    obtain ⟨_, hbase⟩ := exists_object_of_settle hs ho hbase
    obtain ⟨u, hu⟩ := hs.union_of_base hbase
    exact ⟨_, get?_settle_of_union hs ho hu⟩
  members {k u} hu := by
    have hbefore : ∃ u', ts.get? k = some (.union u') := by
      rw [get?_settle hs ho] at hu
      split at hu
      · split at hu
        · cases hu
        · obtain ⟨t, ht, hleave⟩ := Option.map_eq_some_iff.1 hu
          cases t with
          | union u' => exact ⟨u', ht⟩
          | enum e => cases hleave
          | object o => cases hleave
      · split at hu
        · rename_i heq
          rw [heq, ho] at hu
          cases hu
        · exact ⟨u, hu⟩
    obtain ⟨u', hu'⟩ := hbefore
    obtain ⟨hnodup, m, hm, hnot⟩ := hs.members hu'
    rw [get?_settle_of_union hs ho hu'] at hu
    cases hu
    refine ⟨hnodup.filter _, m, List.mem_filter.2 ⟨hm, ?_⟩, hnot⟩
    split
    · rename_i hkey
      have hne : m ≠ key := fun heq => hnot (heq ▸ isBaseKey_iff.1 hkey)
      simpa using hne
    · rfl

/-- What becomes of a type when empty objects are settled. -/
def settled (keys : List String) (k : String) (t : Descriptor) : Descriptor :=
  if k ∈ keys then t.addPlaceholder else t.leave (keys.filter isBaseKey)

theorem leave_cons (t : Descriptor) (gone : List String) :
    (t.leave [key]).leave gone = t.leave (key :: gone) := by
  cases t with
  | union u =>
    simp only [Descriptor.leave, List.filter_filter]
    congr 2
    refine List.filter_congr fun m _ => ?_
    by_cases hm : m = key <;> simp [hm]
  | enum e => rfl
  | object o => rfl

/-- Settling several objects leaves out their base variants, and nothing else. -/
theorem get?_foldl_settle {keys : List String} (hs : ts.Settleable) (hnodup : keys.Nodup)
    (hkeys : ∀ key ∈ keys, ∃ o, ts.get? key = some (.object o)) (k : String) :
    (keys.foldl settle ts).get? k =
      if k ∈ keys ∧ isBaseKey k = true then none else (ts.get? k).map (settled keys k) := by
  induction keys generalizing ts with
  | nil =>
    rw [List.foldl_nil]
    cases ht : ts.get? k with
    | none => simp
    | some t => cases t <;> simp [settled, Descriptor.leave]
  | cons key rest ih =>
    obtain ⟨o, ho⟩ := hkeys key List.mem_cons_self
    obtain ⟨hnew, hrest⟩ := List.nodup_cons.1 hnodup
    have hobjects : ∀ k ∈ rest, ∃ o, (ts.settle key).get? k = some (.object o) := by
      intro k hk
      obtain ⟨o', ho'⟩ := hkeys k (List.mem_cons_of_mem _ hk)
      have hne : k ≠ key := fun heq => hnew (heq ▸ hk)
      refine ⟨o', ?_⟩
      rw [get?_settle hs ho, if_neg hne, if_neg hne, ho']
      split <;> rfl
    rw [List.foldl_cons, ih (hs.settle ho) hrest hobjects, get?_settle hs ho]
    by_cases hk : k = key
    · subst hk
      simp only [hnew, false_and, if_false, if_true, List.mem_cons_self, true_and, ho]
      split
      · rfl
      · simp [settled, hnew, Descriptor.addPlaceholder, Descriptor.leave]
    · simp only [List.mem_cons, hk, false_or, if_false]
      split
      · rfl
      · cases ht : ts.get? k with
        | none => split <;> rfl
        | some t =>
          by_cases hmem : k ∈ rest
          · obtain ⟨o', ho'⟩ := hkeys k (List.mem_cons_of_mem _ hmem)
            cases ht.symm.trans ho'
            split <;> simp [settled, hmem, Descriptor.leave]
          · split
            · rename_i hbase
              simp [settled, hmem, hk, leave_cons, hbase]
            · rename_i hbase
              simp [settled, hmem, hk, hbase]

theorem mem_emptyKeys : key ∈ ts.emptyKeys ↔
    ∃ o, ts.get? key = some (.object o) ∧ o.hasDeclaredFields = false := by
  simp only [emptyKeys, List.mem_map, List.mem_filter, Prod.exists, exists_and_right,
    exists_eq_right, OrderedMap.mem_entries_iff]
  constructor
  · rintro ⟨t, ht, hempty⟩
    cases t with
    | object o => exact ⟨o, ht, by simpa [Descriptor.object?] using hempty⟩
    | enum e => simp [Descriptor.object?] at hempty
    | union u => simp [Descriptor.object?] at hempty
  · rintro ⟨o, ho, hempty⟩
    exact ⟨.object o, ho, by simpa [Descriptor.object?] using hempty⟩

/-- Empty base variants are left out everywhere, and other empty objects get a placeholder. -/
theorem get?_settleEmpty (hs : ts.Settleable) (k : String) :
    ts.settleEmpty.get? k =
      if k ∈ ts.emptyKeys ∧ isBaseKey k = true then none
      else (ts.get? k).map (settled ts.emptyKeys k) := by
  have hnodup : ts.emptyKeys.Nodup := List.Sublist.nodup (List.filter_sublist.map _) ts.nodup
  refine get?_foldl_settle hs hnodup (fun key hkey => ?_) k
  obtain ⟨o, ho, _⟩ := mem_emptyKeys.1 hkey
  exact ⟨o, ho⟩

end Types

end ODataGraph
