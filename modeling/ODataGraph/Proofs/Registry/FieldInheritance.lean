import Mathlib.Data.List.Induction
import ODataGraph.Proofs.Reachability
import ODataGraph.Proofs.Registry.Placement

/-!
Inheriting fields. An object ends up with its own fields, and under every other name with the field
of the nearest type above that has one. Which fields these are, and in what order, only depends on
the own fields of types.
-/

namespace ODataGraph

open Csdl (StructuredType Extends TypeRef)
open Relation (ReflTransGen TransGen)

/-- The field that a type has under a name: its own, or else the one of the type it extends. -/
inductive Inherits (extends_ : String → String → Prop) (own : FieldMap) (field : String) :
    String → Field → Prop
  | own {name f} : (own name).get? field = some f → Inherits extends_ own field name f
  | base {name base f} : (own name).get? field = none → extends_ name base →
      Inherits extends_ own field base f → Inherits extends_ own field name f

namespace Inherits

variable {R : String → String → Prop} {own : FieldMap} {field name base : String} {f : Field}

theorem exists_reflTransGen (h : Inherits R own field name f) :
    ∃ top, ReflTransGen R name top ∧ (own top).get? field = some f := by
  induction h with
  | own hown => exact ⟨_, .refl, hown⟩
  | base _ hext _ ih =>
    obtain ⟨top, hway, hown⟩ := ih
    exact ⟨top, .head hext hway, hown⟩

theorem exists_of_reflTransGen {top : String} (hway : ReflTransGen R name top)
    (hown : (own top).get? field = some f) : ∃ g, Inherits R own field name g := by
  induction hway using ReflTransGen.head_induction_on with
  | refl => exact ⟨f, .own hown⟩
  | @head x _ hext _ ih =>
    obtain ⟨g, hg⟩ := ih
    cases hx : (own x).get? field with
    | none => exact ⟨g, .base hx hext hg⟩
    | some g' => exact ⟨g', .own hx⟩

end Inherits

/-- Going from base to base comes to an end. -/
theorem Hierarchy.Sorts.acc {R : String → String → Prop} {h : Hierarchy} (ho : h.Sorts R)
    (name : String) : Acc (flip R) name := by
  apply acc_of_acyclic
  · refine ((List.finite_toSet (h.edges.map Prod.snd)).insert name).subset fun base hway => ?_
    rcases hway.cases_tail with rfl | ⟨child, _, hlast⟩
    · exact Set.mem_insert _ _
    · have hedge : (child, base) ∈ h.edges := ho.mem_edges_iff.2 hlast
      exact Set.mem_insert_of_mem _ (List.mem_map_of_mem (f := Prod.snd) hedge)
  · exact fun name _ => ho.not_transGen name

/-- Fields that are handed down: a type has its own, and after them those of the type it extends
whose names it does not have. -/
structure Complete (names : List String) (R : String → String → Prop) (own all : FieldMap) :
    Prop where
  top : ∀ name ∈ names, (∀ base, ¬ R name base) → all name = own name
  below : ∀ {name base}, R name base → all name = (own name).addNew (all base).entries

namespace Complete

variable {names : List String} {R : String → String → Prop} {own own' all all' : FieldMap}
  {field name : String} {f : Field} {h : Hierarchy}

theorem congr_own (hc : Complete names R own all) (hclosed : ∀ {a b}, R a b → a ∈ names)
    (hown : ∀ name ∈ names, own name = own' name) : Complete names R own' all where
  top name hname htop := (hc.top name hname htop).trans (hown name hname)
  below hbase := hown _ (hclosed hbase) ▸ hc.below hbase

/-- What is handed down is the field of the nearest type that has one. -/
theorem get?_eq_some_iff (ho : h.Sorts R) (hclosed : ∀ {a b}, R a b → b ∈ names)
    (hc : Complete names R own all) (hname : name ∈ names) :
    (all name).get? field = some f ↔ Inherits R own field name f := by
  induction ho.acc name generalizing f with
  | intro name _ ih =>
    by_cases hbase : ∃ base, R name base
    · obtain ⟨base, hbase⟩ := hbase
      have hinherited : ((all base).entries.lookup field = some f) ↔ Inherits R own field base f :=
        ih base hbase (hclosed hbase)
      rw [hc.below hbase, OrderedMap.get?_addNew, Option.or_eq_some_iff, hinherited]
      constructor
      · rintro (hown | ⟨hnone, hfield⟩)
        · exact .own hown
        · exact .base hnone hbase hfield
      · intro hfield
        cases hfield with
        | own hown => exact .inl hown
        | base hnone hbase' hfield =>
          cases ho.base_unique hbase hbase'
          exact .inr ⟨hnone, hfield⟩
    · rw [hc.top name hname fun base hb => hbase ⟨base, hb⟩]
      constructor
      · exact .own
      · intro hfield
        cases hfield with
        | own hown => exact hown
        | base _ hb _ => exact absurd ⟨_, hb⟩ hbase

/-- Own fields decide on all others, and on their order. -/
theorem unique (ho : h.Sorts R) (hclosed : ∀ {a b}, R a b → b ∈ names)
    (hc : Complete names R own all) (hc' : Complete names R own all') (hname : name ∈ names) :
    all name = all' name := by
  induction ho.acc name with
  | intro name _ ih =>
    by_cases hbase : ∃ base, R name base
    · obtain ⟨base, hbase⟩ := hbase
      rw [hc.below hbase, hc'.below hbase, ih base hbase (hclosed hbase)]
    · have htop : ∀ base, ¬ R name base := fun base hb => hbase ⟨base, hb⟩
      rw [hc.top name hname htop, hc'.top name hname htop]

end Complete

namespace Types

variable {ts : Types} {F : FieldMap} {edges : List (String × String)} {objectKey : String → String}

theorem object?_setFields {key : String} {o : ObjectType}
    (hkey : ts.fieldsKey? key = some (objectKey key))
    (ho : ts.get? (objectKey key) = some (.object o)) :
    (ts.setFields F).object? key = some { o with fields := F (objectKey key) } := by
  rw [object?, fieldsKey?_setFields, hkey]
  simp only [Option.bind_eq_bind, Option.bind_some, get?_setFields, ho]
  rfl

theorem inheritFrom_setFields {child base : String} {o : ObjectType}
    (hkey : ts.fieldsKey? base = some (objectKey base))
    (ho : ts.get? (objectKey base) = some (.object o)) :
    Hierarchy.inheritFrom (ts.setFields F) (child, base) =
      ts.setFields (ts.place F child (F (objectKey base)).entries) := by
  rw [Hierarchy.inheritFrom, object?_setFields hkey ho, ← addFields_setFields]
  rfl

/-- Going through pairs, bases first, hands every field down. -/
theorem exists_foldl_inheritFrom_eq
    (hpairwise : edges.Pairwise fun e e' => e.2 ≠ e'.1) (hirrefl : ∀ e ∈ edges, e.2 ≠ e.1)
    (hnodup : (edges.map Prod.fst).Nodup) {names : List String}
    (hnames : ∀ e ∈ edges, e.1 ∈ names ∧ e.2 ∈ names)
    (hobject : ∀ name ∈ names, ts.fieldsKey? name = some (objectKey name) ∧
      ∃ o, ts.get? (objectKey name) = some (.object o))
    (hinj : ∀ a ∈ names, ∀ b ∈ names, objectKey a = objectKey b → a = b) :
    ∃ G, edges.foldl Hierarchy.inheritFrom (ts.setFields F) = ts.setFields G ∧
      Complete names (fun name base => (name, base) ∈ edges) (F ∘ objectKey) (G ∘ objectKey) := by
  induction edges using List.reverseRecOn with
  | nil => exact ⟨F, rfl, fun _ _ _ => rfl, fun hmem => absurd hmem List.not_mem_nil⟩
  | append_singleton init e ih =>
    obtain ⟨child, base⟩ := e
    obtain ⟨hinit, -, hlast⟩ := List.pairwise_append.1 hpairwise
    rw [List.map_append, List.nodup_append] at hnodup
    have hmem : (child, base) ∈ init ++ [(child, base)] :=
      List.mem_append_right _ List.mem_cons_self
    have hne : base ≠ child := hirrefl _ hmem
    have hchild : ∀ {x}, (x, child) ∉ init := fun hx => hlast _ hx _ List.mem_cons_self rfl
    have hnew : ∀ {b}, (child, b) ∉ init := fun hb =>
      hnodup.2.2 child (List.mem_map_of_mem (f := Prod.fst) hb) child (by simp) rfl
    obtain ⟨hc, hb⟩ := hnames _ hmem
    obtain ⟨G, hG, htop, hbelow⟩ := ih hinit (fun e he => hirrefl e (List.mem_append_left _ he))
      hnodup.1 fun e he => hnames e (List.mem_append_left _ he)
    obtain ⟨hbaseKey, o, ho⟩ := hobject base hb
    -- the last pair changes its child, which is no base in a pair before
    have hself : ts.place G child (G (objectKey base)).entries (objectKey child) =
        (F (objectKey child)).addNew (G (objectKey base)).entries := by
      have hown : G (objectKey child) = F (objectKey child) := htop child hc fun _ => hnew
      rw [place_self (hobject child hc).1, hown]
    have hother : ∀ name ∈ names, name ≠ child →
        ts.place G child (G (objectKey base)).entries (objectKey name) = G (objectKey name) := by
      intro name hname hne
      apply place_of_ne
      rw [(hobject child hc).1, ne_eq, Option.some.injEq]
      exact fun heq => hne (hinj _ hname _ hc heq.symm)
    refine ⟨ts.place G child (G (objectKey base)).entries, ?_, fun name hname hno => ?_, ?_⟩
    · rw [List.foldl_append, hG, List.foldl_cons, inheritFrom_setFields hbaseKey ho]
      rfl
    · have hne : name ≠ child := fun heq => hno base (heq ▸ hmem)
      exact (hother name hname hne).trans
        (htop name hname fun b hb => hno b (List.mem_append_left _ hb))
    · intro name b hpair
      rcases List.mem_append.1 hpair with hpair | hpair
      · obtain ⟨hname, hb⟩ := hnames _ (List.mem_append_left _ hpair)
        have hne : name ≠ child := fun heq => hnew (heq ▸ hpair)
        have hneb : b ≠ child := fun heq => hchild (heq ▸ hpair)
        simp only [Function.comp_apply, hother name hname hne, hother b hb hneb]
        exact hbelow hpair
      · cases List.mem_singleton.1 hpair
        simp only [Function.comp_apply, hself, hother base hb hne]

end Types

end ODataGraph
