import Mathlib.Data.List.Induction
import ODataGraph.Proofs.Reachability
import ODataGraph.Proofs.Registry.Hierarchy

/-!
The order of types after their bases, for any list of types. Pairs whose base waits for no other
pair are taken round after round, until none is left or none can be taken; those that are left then
are the ones from which bases lead on for ever.
-/

namespace ODataGraph

open Csdl (StructuredType)

/-- The base of a name: that of the last type of this name whose base is declared itself. -/
def Csdl.lastBase? (types : List StructuredType) (name : String) : Option String :=
  ((types.filter (·.name = name)).filterMap fun t =>
    t.baseName.filter (types.map (·.name)).contains).getLast?

/-- From a name to its base. -/
def Csdl.LeadsTo (types : List StructuredType) (name base : String) : Prop :=
  lastBase? types name = some base

namespace Hierarchy

/-- The pairs that are left after a round. -/
def waiting (pending : OrderedMap String String) : OrderedMap String String :=
  pending.filter fun name _ => !((ready pending).map Prod.fst).contains name

/-- What taking the ready pairs round after round comes to, in as many rounds as it takes. -/
inductive Rounds : OrderedMap String String → Except (List String) (List (String × String)) → Prop
  | done {pending : OrderedMap String String} (h : pending.isEmpty = true) : Rounds pending (.ok [])
  | stuck {pending : OrderedMap String String} (h : pending.isEmpty = false)
      (hready : ready pending = []) : Rounds pending (.error pending.keys)
  | round {pending : OrderedMap String String}
      {later : Except (List String) (List (String × String))} (hready : ready pending ≠ [])
      (h : Rounds (waiting pending) later) :
      Rounds pending (later.map (ready pending ++ ·))

variable {types : List StructuredType} {pending : OrderedMap String String}
  {name base : String} {names : List String} {edges : List (String × String)}
  {result : Except (List String) (List (String × String))}

theorem get?_ofList_filterMap (base? : StructuredType → Option String) (l : List StructuredType)
    (name : String) :
    (OrderedMap.ofList (l.filterMap fun t => (base? t).map (t.name, ·))).get? name =
      ((l.filter (·.name = name)).filterMap base?).getLast? := by
  rw [OrderedMap.get?_ofList]
  induction l using List.reverseRecOn with
  | nil => rfl
  | append_singleton l t ih =>
    rw [List.filterMap_append, List.reverse_append, List.lookup_append, ih, List.filter_append,
      List.filterMap_append, List.getLast?_append]
    cases hbase : base? t with
    | none => by_cases hname : t.name = name <;> simp [hbase, hname]
    | some base =>
      by_cases hname : t.name = name
      · simp [hbase, hname]
      · simp [hbase, hname, List.lookup_cons, beq_false_of_ne (Ne.symm hname)]

theorem mem_entries_bases :
    (name, base) ∈ (bases types).entries ↔ Csdl.LeadsTo types name base := by
  rw [OrderedMap.mem_entries_iff, bases, get?_ofList_filterMap]
  rfl

theorem entries_waiting (pending : OrderedMap String String) :
    (waiting pending).entries = pending.entries.filter fun e => pending.contains e.2 :=
  entries_filter_ready pending

/-- A round with a ready pair leaves fewer pairs. -/
theorem size_waiting_lt (h : ready pending ≠ []) : (waiting pending).size < pending.size := by
  obtain ⟨e, he⟩ := List.exists_mem_of_ne_nil _ h
  obtain ⟨hmem, hready⟩ := List.mem_filter.1 he
  rw [OrderedMap.size, entries_waiting]
  exact List.length_filter_lt_length_iff_exists.2 ⟨e, hmem, by simpa using hready⟩

/-- There are never more rounds than pairs. -/
theorem rounds_order {rounds : Nat} (h : pending.size ≤ rounds) :
    Rounds pending (order rounds pending) := by
  induction rounds generalizing pending with
  | zero =>
    have hempty : pending.isEmpty = true := by
      rw [OrderedMap.isEmpty, List.isEmpty_iff]
      exact List.length_eq_zero_iff.1 (Nat.le_zero.1 h)
    rw [order, if_pos hempty]
    exact .done hempty
  | succ rounds ih =>
    rw [order]
    dsimp only
    split
    · rename_i hempty
      exact .done hempty
    · rename_i hpending
      split
      · rename_i hnow
        exact .stuck (Bool.not_eq_true _ ▸ hpending) (List.isEmpty_iff.1 hnow)
      · rename_i hnow
        have hready : ready pending ≠ [] := fun hnil => hnow (List.isEmpty_iff.2 hnil)
        have hless := Nat.le_of_lt_succ ((size_waiting_lt hready).trans_le h)
        exact .round hready (ih hless)

theorem nodup_of_rounds (h : Rounds pending (.error names)) : names.Nodup := by
  generalize hresult : Except.error names = result at h
  induction h with
  | done => cases hresult
  | stuck =>
    cases hresult
    exact OrderedMap.nodup _
  | @round pending later _ _ ih =>
    cases later with
    | ok _ => cases hresult
    | error _ =>
      cases hresult
      exact ih rfl

/-- Where no pair is ready, some are left, and each leads to another one. -/
theorem leads_of_rounds (h : Rounds pending (.error names)) :
    names ≠ [] ∧ ∀ name ∈ names, ∃ base ∈ names, (name, base) ∈ pending.entries := by
  generalize hresult : Except.error names = result at h
  induction h with
  | done => cases hresult
  | @stuck pending hpending hready =>
    cases hresult
    refine ⟨fun hnil => ?_, fun name hname => ?_⟩
    · rw [OrderedMap.isEmpty, List.map_eq_nil_iff.1 hnil] at hpending
      cases hpending
    · obtain ⟨⟨_, base⟩, hmem, rfl⟩ := List.mem_map.1 hname
      have hbase := List.filter_eq_nil_iff.1 hready _ hmem
      rw [Bool.not_eq_true', Bool.not_eq_false, OrderedMap.contains_iff] at hbase
      exact ⟨base, hbase, hmem⟩
  | @round pending later _ _ ih =>
    cases later with
    | ok _ => cases hresult
    | error _ =>
      cases hresult
      obtain ⟨hne, hnext⟩ := ih rfl
      refine ⟨hne, fun name hname => ?_⟩
      obtain ⟨base, hbase, hpair⟩ := hnext name hname
      exact ⟨base, hbase, List.mem_of_mem_filter hpair⟩

/-- What is still pending when no pair is ready leads from pair to pair. -/
theorem of_order_eq_error {rounds : Nat} (hrounds : pending.size ≤ rounds)
    (h : order rounds pending = .error names) :
    names ≠ [] ∧ ∀ name ∈ names, ∃ base ∈ names, (name, base) ∈ pending.entries :=
  leads_of_rounds (h ▸ rounds_order hrounds)

/-- A name from which the pairs lead on for ever is among those that are left in the end: its base
is such a name too, so that it is never ready. -/
theorem exists_of_rounds (h : Rounds pending result)
    (hname : NeverEnds (fun name base => (name, base) ∈ pending.entries) name) :
    ∃ names, result = .error names ∧ name ∈ names := by
  induction h with
  | done hempty =>
    obtain ⟨f, _, hf⟩ := hname
    have hmem := hf 0
    rw [List.isEmpty_iff.1 hempty] at hmem
    cases hmem
  | stuck =>
    obtain ⟨f, rfl, hf⟩ := hname
    exact ⟨_, rfl, List.mem_map_of_mem (f := Prod.fst) (hf 0)⟩
  | round _ _ ih =>
    obtain ⟨f, hstart, hf⟩ := hname
    obtain ⟨names, rfl, hmem⟩ := ih ⟨f, hstart, fun n => by
      rw [entries_waiting]
      have hbase := List.mem_map_of_mem (f := Prod.fst) (hf (n + 1))
      exact List.mem_filter.2 ⟨hf n, OrderedMap.contains_iff.2 hbase⟩⟩
    exact ⟨names, rfl, hmem⟩

/-- The names that are left in the end are those from which the pairs lead on for ever. -/
theorem mem_iff_neverEnds (h : order pending.size pending = .error names) :
    name ∈ names ↔ NeverEnds (fun name base => (name, base) ∈ pending.entries) name := by
  constructor
  · refine neverEnds_of_forall_exists fun name hname => ?_
    obtain ⟨base, hbase, hpair⟩ := (of_order_eq_error le_rfl h).2 name hname
    exact ⟨base, hbase, hpair⟩
  · intro hends
    obtain ⟨names', heq, hmem⟩ := exists_of_rounds (rounds_order le_rfl) hends
    cases h.symm.trans heq
    exact hmem

theorem nodup_sorted (h : names.Nodup) : (sorted names).Nodup :=
  (List.mergeSort_perm names _).nodup_iff.2 h

theorem lt_of_pairwise (hpairwise : edges.Pairwise fun e e' => e.2 ≠ e'.1)
    (hirrefl : ∀ e ∈ edges, e.2 ≠ e.1) {i j : Nat} {next : String}
    (hi : edges[i]? = some (name, base)) (hj : edges[j]? = some (base, next)) : j < i := by
  obtain ⟨hi, hname⟩ := List.getElem?_eq_some_iff.1 hi
  obtain ⟨hj, hbase⟩ := List.getElem?_eq_some_iff.1 hj
  rcases Nat.lt_trichotomy j i with hlt | rfl | hlt
  · exact hlt
  · have hself := hirrefl _ (List.getElem_mem hi)
    rw [hname] at hbase hself
    cases hbase
    exact absurd rfl hself
  · have hne := List.pairwise_iff_getElem.1 hpairwise i j hi hj hlt
    rw [hname, hbase] at hne
    exact absurd rfl hne

/-- Taking pairs in rounds always ends. It makes a hierarchy exactly if from no name bases lead on
for ever, and else it reports the names from which they do, sorted. A hierarchy has one pair for
each name with a base, after the pair of that base. -/
theorem ofTypes_orders_bases (types : List StructuredType) :
    (∃ result, Rounds (bases types) result ∧ ofTypes types =
      match result with
      | .ok edges => .ok ⟨edges⟩
      | .error names => .error (.inheritanceCycle (sorted names))) ∧
    ((∃ h, ofTypes types = .ok h) ↔ ∀ name, ¬ NeverEnds (Csdl.LeadsTo types) name) ∧
    (∀ error, ofTypes types = .error error → ∃ names, error = .inheritanceCycle names ∧
      names.Pairwise (· ≤ ·) ∧ names.Nodup ∧
      ∀ name, name ∈ names ↔ NeverEnds (Csdl.LeadsTo types) name) ∧
    ∀ h, ofTypes types = .ok h → (h.edges.map Prod.fst).Nodup ∧
      (∀ name base, (name, base) ∈ h.edges ↔ Csdl.LeadsTo types name base) ∧
      ∀ (i j : Nat) name base next, h.edges[i]? = some (name, base) →
        h.edges[j]? = some (base, next) → j < i := by
  have hrounds := rounds_order (le_refl (bases types).size)
  have hleads : (fun name base => (name, base) ∈ (bases types).entries) = Csdl.LeadsTo types := by
    funext name base
    exact propext mem_entries_bases
  refine ⟨⟨_, hrounds, rfl⟩, ?_, fun error herror => ?_, fun h hh => ?_⟩
  · rw [ofTypes]
    cases horder : order (bases types).size (bases types) with
    | ok edges =>
      refine ⟨fun _ name hends => ?_, fun _ => ⟨_, rfl⟩⟩
      obtain ⟨_, heq, _⟩ := exists_of_rounds hrounds (hleads ▸ hends)
      cases horder.symm.trans heq
    | error names =>
      obtain ⟨name, hname⟩ := List.exists_mem_of_ne_nil _ (of_order_eq_error le_rfl horder).1
      refine ⟨?_, fun hno => ?_⟩
      · rintro ⟨_, h⟩
        cases h
      · exact absurd (hleads ▸ (mem_iff_neverEnds horder).1 hname) (hno name)
  · rw [ofTypes] at herror
    split at herror
    · cases herror
    · rename_i names horder
      cases herror
      rw [horder] at hrounds
      refine ⟨_, rfl, pairwise_sorted names, nodup_sorted (nodup_of_rounds hrounds),
        fun name => ?_⟩
      rw [sorted, List.mem_mergeSort, mem_iff_neverEnds horder, hleads]
  · obtain ⟨hmem, hnodup, hpairwise, hirrefl⟩ := sorts_of_ofTypes hh
    exact ⟨hnodup, fun _ _ => hmem.trans mem_entries_bases,
      fun _ _ _ _ _ => lt_of_pairwise hpairwise hirrefl⟩

/-- Of two types with one name the last counts whose base is declared: `B` extends `A` and not the
unknown `Z`, and `C` comes after it. -/
example : (ofTypes [{ name := "C", base := some "Zoo.B" }, { name := "A" },
    { name := "B", base := some "Zoo.A" }, { name := "B", base := some "Zoo.Z" }]).toOption =
      some ⟨[("B", "A"), ("C", "B")]⟩ := by
  decide

end Hierarchy

end ODataGraph
