import ODataGraph.Proofs.Execution.Outline
import ODataGraph.Proofs.Execution.ResponseKeys

/-!
Places in values. A value that is put together from those of tasks has each of them in a place of
its own, and nothing but that place changes when one of them is replaced.
-/

namespace ODataGraph

namespace Json

/-- What stands at the end of a path. -/
def at? : Json → Path → Option Json
  | v, [] => some v
  | .object members, .field name :: rest => (Members.get? members name).bind (at? · rest)
  | .array items, .index i :: rest => items[i]?.bind (at? · rest)
  | _, _ :: _ => none

/-- A value with another one at the end of a path, if it has that path. -/
def replaceAt : Json → Path → Json → Json
  | _, [], w => w
  | .object members, .field name :: rest, w =>
    .object (members.map fun m => if m.1 = name then (m.1, replaceAt m.2 rest w) else m)
  | .array items, .index i :: rest, w => .array (items.modify i (replaceAt · rest w))
  | v, _ :: _, _ => v

/-- A way to put values together that gives each one the place of its segment. -/
structure Frame (build : List Json → Json) (segments : List PathSegment) : Prop where
  nodup : segments.Nodup
  at?_cons {values : List Json} {i : Nat} {segment : PathSegment} {v : Json}
    (hlength : values.length = segments.length) (hsegment : segments[i]? = some segment)
    (hv : values[i]? = some v) (rest : Path) :
    (build values).at? (segment :: rest) = v.at? rest
  replaceAt_cons {values : List Json} {i : Nat} {segment : PathSegment} {v : Json}
    (hlength : values.length = segments.length) (hsegment : segments[i]? = some segment)
    (hv : values[i]? = some v) (rest : Path) (w : Json) :
    (build values).replaceAt (segment :: rest) w = build (values.set i (v.replaceAt rest w))

namespace Members

theorem insert_of_not_mem {members : Members} {name : String} (h : name ∉ members.map Prod.fst)
    (value : Json) : insert name value members = members ++ [(name, value)] := by
  induction members with
  | nil => rfl
  | cons m rest ih =>
    obtain ⟨n, v⟩ := m
    rw [List.map_cons, List.mem_cons, not_or] at h
    rw [insert, if_neg (Ne.symm h.1), ih h.2, List.cons_append]

theorem ofList_eq_self {members : Members} (h : (members.map Prod.fst).Nodup) :
    ofList members = members := by
  induction members using List.reverseRecOn with
  | nil => rfl
  | append_singleton members m ih =>
    obtain ⟨name, value⟩ := m
    rw [List.map_append, List.map_singleton, List.nodup_append] at h
    obtain ⟨hinit, _, hdisjoint⟩ := h
    have hnot : name ∉ members.map Prod.fst := fun hmem =>
      hdisjoint name hmem name (List.mem_singleton_self name) rfl
    rw [ofList_concat, ih hinit, insert_of_not_mem hnot]

variable {keys : List String} {values : List Json} {i : Nat} {key : String} {v : Json}

theorem nodup_zip (h : keys.Nodup) (values : List Json) :
    ((keys.zip values).map Prod.fst).Nodup := by
  induction keys generalizing values with
  | nil => exact List.nodup_nil
  | cons k keys ih =>
    obtain ⟨hnot, hrest⟩ := List.nodup_cons.1 h
    cases values with
    | nil => exact List.nodup_nil
    | cons w values =>
      rw [List.zip_cons_cons, List.map_cons, List.nodup_cons]
      refine ⟨?_, ih hrest values⟩
      intro hmem
      obtain ⟨m, hm, rfl⟩ := List.mem_map.1 hmem
      exact hnot (List.of_mem_zip hm).1

theorem get?_zip (hkeys : keys.Nodup) (hkey : keys[i]? = some key) (hv : values[i]? = some v) :
    get? (keys.zip values) key = some v := by
  have hmem : (key, v) ∈ keys.zip values := by
    rw [List.mem_iff_getElem?]
    exact ⟨i, List.getElem?_zip_eq_some.2 ⟨hkey, hv⟩⟩
  exact (OrderedMap.mem_iff_lookup_of_nodup (nodup_zip hkeys values)).1 hmem

theorem map_zip_of_getElem? (hkeys : keys.Nodup) (hkey : keys[i]? = some key)
    (hv : values[i]? = some v) (f : Json → Json) :
    ((keys.zip values).map fun m => if m.1 = key then (m.1, f m.2) else m) =
      keys.zip (values.set i (f v)) := by
  induction keys generalizing values i with
  | nil => cases hkey
  | cons k keys ih =>
    obtain ⟨hnot, hrest⟩ := List.nodup_cons.1 hkeys
    cases values with
    | nil => cases hv
    | cons w values =>
      rw [List.zip_cons_cons, List.map_cons]
      cases i with
      | zero =>
        cases hkey
        cases hv
        have hsame : ∀ m ∈ keys.zip values, (if m.1 = key then (m.1, f m.2) else m) = m := by
          intro m hm
          apply if_neg
          rintro rfl
          exact hnot (List.of_mem_zip hm).1
        rw [if_pos rfl, List.set_cons_zero, List.zip_cons_cons, List.map_congr_left hsame,
          List.map_id'']
        exact fun _ => rfl
      | succ i =>
        have hne : k ≠ key := by
          rintro rfl
          exact hnot (List.mem_of_getElem? hkey)
        rw [if_neg hne, ih hrest hkey hv, List.set_cons_succ, List.zip_cons_cons]

end Members

theorem frame_array {α : Type} (items : List α) :
    Frame .array (items.zipIdx.map fun p => .index p.2) := by
  have hindex : ∀ {i : Nat} {segment : PathSegment},
      (items.zipIdx.map fun p => PathSegment.index p.2)[i]? = some segment →
      segment = .index i := by
    intro i segment h
    rw [List.getElem?_map, List.getElem?_zipIdx, Option.map_map, Option.map_eq_some_iff] at h
    obtain ⟨item, _, rfl⟩ := h
    exact congrArg PathSegment.index (Nat.zero_add i)
  refine ⟨?_, ?_, ?_⟩
  · have hmap : (items.zipIdx.map fun p => PathSegment.index p.2) =
        (items.zipIdx.map Prod.snd).map .index := by
      rw [List.map_map]
      rfl
    rw [hmap, List.zipIdx_map_snd]
    apply List.Nodup.map
    · intro i j hij
      exact PathSegment.index.inj hij
    · exact List.nodup_range'
  · intro values i segment v _ hi hv rest
    rw [hindex hi, at?, hv, Option.bind_some]
  · intro values i segment v _ hi hv rest w
    rw [hindex hi, replaceAt, List.modify_eq_set_getElem?, hv]
    rfl

end Json

namespace Execution

open Json (Frame Members)

/-- Distinct keys have distinct places. -/
theorem frame_objectOf {keys : List String} (h : keys.Nodup) :
    Frame (objectOf keys) (keys.map .field) := by
  have hbuild : ∀ values : List Json, objectOf keys values = .object (keys.zip values) := by
    intro values
    rw [objectOf, Members.ofList_eq_self (Members.nodup_zip h values)]
  have hfield : ∀ {i : Nat} {segment : PathSegment},
      (keys.map PathSegment.field)[i]? = some segment →
      ∃ key, keys[i]? = some key ∧ segment = .field key := by
    intro i segment hi
    rw [List.getElem?_map, Option.map_eq_some_iff] at hi
    obtain ⟨key, hkey, rfl⟩ := hi
    exact ⟨key, hkey, rfl⟩
  refine ⟨?_, ?_, ?_⟩
  · apply h.map
    intro a b hab
    exact PathSegment.field.inj hab
  · intro values i segment v _ hi hv rest
    obtain ⟨key, hkey, rfl⟩ := hfield hi
    rw [hbuild, Json.at?, Members.get?_zip h hkey hv, Option.bind_some]
  · intro values i segment v _ hi hv rest w
    obtain ⟨key, hkey, rfl⟩ := hfield hi
    rw [hbuild, hbuild, Json.replaceAt, Members.map_zip_of_getElem? h hkey hv (·.replaceAt rest w)]

end Execution

end ODataGraph
