import Mathlib.Data.List.Induction
import ODataGraph.Proofs.Registry.TypeAnnotation

/-!
Which query options a type offers. Of the annotations with the term of a capability the last one
decides, also when it says nothing: an option is withheld exactly if that one says no, so that a
repeated term without the property takes back what an earlier one declared.
-/

namespace ODataGraph

open Csdl (AppliedTerm)

namespace Capability

/-- The query option that a capability decides on. -/
def option? : Capability → Option String
  | .count => some "_count"
  | .top => some "_top"
  | .skip => some "_skip"
  | .search => some "_search"
  | .filter => some "_filter"
  | .orderBy => some "_orderby"
  | .expand => none
  | .select => none

end Capability

namespace Csdl.AppliedTerm

/-- The capability that the term of an annotation is about. -/
def capability? (a : AppliedTerm) : Option Capability :=
  (Text.dropStart? Capabilities.capabilityTerms a.term).bind Capability.ofTerm?

/-- What an annotation says to a capability. Those with another term, and those without the boolean
that decides, say nothing. -/
def states? (a : AppliedTerm) (c : Capability) : Option Bool :=
  if a.capability? = some c then c.stated a else none

end Csdl.AppliedTerm

namespace Capability

/-- An annotation says no, and no later one has its term. -/
def Denied (c : Capability) (as : List AppliedTerm) : Prop :=
  ∃ before a after, as = before ++ a :: after ∧ a.states? c = some false ∧
    ∀ later ∈ after, later.capability? ≠ some c

end Capability

namespace Capabilities

variable {cs : Capabilities} {a : AppliedTerm} {c : Capability} {as before after : List AppliedTerm}
  {option : String}

/-! ### What annotations state -/

@[simp] theorem stated_noteProperty (cs : Capabilities) (a : AppliedTerm) (name text : String) :
    (cs.noteProperty a name text).stated = cs.stated := by
  rw [noteProperty]
  split <;> rfl

theorem stated_applyCore (cs : Capabilities) (term : String) (a : AppliedTerm) :
    (cs.applyCore term a).stated = cs.stated := by
  unfold applyCore
  split
  case h_3 => exact stated_noteProperty _ _ _ _
  case h_4 => split <;> rfl
  all_goals rfl

theorem stated_applyCapability (cs : Capabilities) (term : String) (a : AppliedTerm)
    (c : Capability) : (cs.applyCapability term a).stated c =
      if Capability.ofTerm? term = some c then c.stated a else cs.stated c := by
  unfold applyCapability
  cases hterm : Capability.ofTerm? term with
  | some c' =>
    by_cases hc : c = c'
    · simp [hc]
    · simp [hc, Ne.symm hc]
  | none =>
    simp only [reduceCtorEq, if_false]
    split
    case h_2 =>
      rw [noteNavigability]
      split <;> rfl
    case h_6 => rfl
    all_goals exact congrFun (stated_noteProperty _ _ _ _) c

theorem dropStart?_eq_some {start s rest : String} (h : Text.dropStart? start s = some rest) :
    start.toList <+: s.toList := by
  rw [Text.dropStart?] at h
  split at h
  · rename_i hprefix
    exact List.isPrefixOf_iff_prefix.1 hprefix
  · cases h

/-- A core term is about no capability. -/
theorem capability?_of_core {term : String} (h : Text.dropStart? coreTerms a.term = some term) :
    a.capability? = none := by
  rw [AppliedTerm.capability?]
  cases hother : Text.dropStart? capabilityTerms a.term with
  | none => rfl
  | some other =>
    -- both would be a beginning of the term, and so one of the other
    have hneither : ¬ (coreTerms.toList <+: capabilityTerms.toList ∨
        capabilityTerms.toList <+: coreTerms.toList) := by
      decide
    exact absurd (List.prefix_or_prefix_of_prefix (dropStart?_eq_some h)
      (dropStart?_eq_some hother)) hneither

/-- An annotation decides on the capability of its term, and on no other. -/
theorem stated_apply (cs : Capabilities) (a : AppliedTerm) (c : Capability) :
    (cs.apply a).stated c = if a.capability? = some c then c.stated a else cs.stated c := by
  rw [apply]
  split
  · rename_i term hcore
    rw [stated_applyCore, capability?_of_core hcore, if_neg nofun]
  · rw [AppliedTerm.capability?]
    split
    · rename_i term hterm
      rw [stated_applyCapability, hterm, Option.bind_some]
    · rename_i hterm
      rw [hterm, Option.bind_none, if_neg nofun]
      rfl

theorem stated_ofAnnotations_concat (as : List AppliedTerm) (a : AppliedTerm) (c : Capability) :
    (ofAnnotations (as ++ [a])).stated c =
      if a.capability? = some c then c.stated a else (ofAnnotations as).stated c := by
  rw [ofAnnotations, List.foldl_append, List.foldl_cons, List.foldl_nil, stated_apply,
    ofAnnotations]

/-- Annotations with other terms do not count. -/
theorem stated_append_of_others (h : ∀ later ∈ after, later.capability? ≠ some c) :
    (ofAnnotations (as ++ after)).stated c = (ofAnnotations as).stated c := by
  induction after using List.reverseRecOn with
  | nil => rw [List.append_nil]
  | append_singleton after last ih =>
    rw [← List.append_assoc, stated_ofAnnotations_concat,
      if_neg (h last (List.mem_append_right _ (List.mem_singleton_self last))),
      ih fun later hlater => h later (List.mem_append_left _ hlater)]

/-- What the annotations state last, they state whatever came before. -/
theorem stated_append (before : List AppliedTerm) (ha : a.capability? = some c)
    (h : ∀ later ∈ after, later.capability? ≠ some c) :
    (ofAnnotations (before ++ a :: after)).stated c = c.stated a := by
  rw [← List.singleton_append, ← List.append_assoc, stated_append_of_others h,
    stated_ofAnnotations_concat, if_pos ha]

theorem stated_eq_some_false_iff : (ofAnnotations as).stated c = some false ↔ c.Denied as := by
  constructor
  · intro h
    induction as using List.reverseRecOn with
    | nil => cases h
    | append_singleton as last ih =>
      rw [stated_ofAnnotations_concat] at h
      split at h
      · rename_i hterm
        exact ⟨as, last, [], rfl, by rw [AppliedTerm.states?, if_pos hterm, h], nofun⟩
      · rename_i hterm
        obtain ⟨before, a, after, rfl, ha, hafter⟩ := ih h
        refine ⟨before, a, after ++ [last], by simp, ha, fun later hlater => ?_⟩
        rcases List.mem_append.1 hlater with hlater | hlater
        · exact hafter later hlater
        · exact List.mem_singleton.1 hlater ▸ hterm
  · rintro ⟨before, a, after, rfl, ha, hafter⟩
    rw [AppliedTerm.states?] at ha
    split at ha
    · rename_i hterm
      rw [stated_append before hterm hafter, ha]
    · cases ha

/-! ### What is offered -/

theorem mem_keys_arguments_iff (hc : c.option? = some option) :
    option ∈ cs.arguments.keys ↔ cs.stated c ≠ some false := by
  have hnames : ∀ cs : Capabilities, (cs.options.map fun o => o.2.1).Nodup := fun _ => by
    simp only [options, List.map_cons, List.map_nil]
    decide
  have hnodup : (((cs.options.filter fun o => cs.stated o.1 != some false).map Prod.snd).map
      Prod.fst).Nodup := by
    rw [List.map_map]
    exact (hnames cs).sublist (List.filter_sublist.map _)
  rw [arguments, OrderedMap.keys, OrderedMap.entries_ofList hnodup, List.map_map]
  cases c <;> cases hc <;> simp [options]

theorem offers_iff (hc : c.option? = some option) :
    option ∈ (ofAnnotations as).arguments.keys ↔ ¬ c.Denied as := by
  rw [mem_keys_arguments_iff hc, ne_eq, stated_eq_some_false_iff]

/-- An annotation that says nothing offers what was withheld, if it has the term of the annotation
that decides. Otherwise it changes nothing. -/
theorem offers_insert_iff (hc : c.option? = some option) (ha : a.states? c = none) :
    (option ∈ (ofAnnotations (before ++ a :: after)).arguments.keys ↔
      option ∈ (ofAnnotations (before ++ after)).arguments.keys) ↔
    ¬ (a.capability? = some c ∧ c.Denied before ∧ ∀ later ∈ after, later.capability? ≠ some c) := by
  simp only [mem_keys_arguments_iff hc, ← stated_eq_some_false_iff]
  by_cases hafter : ∀ later ∈ after, later.capability? ≠ some c
  · rw [stated_append_of_others hafter]
    by_cases hterm : a.capability? = some c
    · rw [AppliedTerm.states?, if_pos hterm] at ha
      rw [stated_append before hterm hafter, ha]
      rw [and_iff_left hafter]
      simp [hterm]
    · rw [List.append_cons, stated_append_of_others hafter, stated_ofAnnotations_concat,
        if_neg hterm]
      simp [hterm]
  · -- the last of the later annotations with the term decides in both lists
    simp only [hafter, and_false, not_false_eq_true, iff_true]
    have hsame : (ofAnnotations (before ++ a :: after)).stated c =
        (ofAnnotations (before ++ after)).stated c := by
      induction after using List.reverseRecOn with
      | nil => exact absurd nofun hafter
      | append_singleton after last ih =>
        rw [← List.cons_append, ← List.append_assoc, ← List.append_assoc,
          stated_ofAnnotations_concat, stated_ofAnnotations_concat]
        split
        · rfl
        · rename_i hterm
          refine ih fun hall => hafter fun later hlater => ?_
          rcases List.mem_append.1 hlater with hlater | hlater
          · exact hall later hlater
          · exact List.mem_singleton.1 hlater ▸ hterm
    rw [hsame]

end Capabilities

namespace Registry

open Capabilities (ofAnnotations)

/-- Exactly those query options are withheld for which the last annotation with the term of their
capability says no. One that says nothing, put in at any place, takes such a no back if it comes to
be the last one with its term, and else changes nothing. Types offer what the annotations leave that
are recorded under their keys. -/
theorem offers_of_build {c : Capability} {option : String} (hc : c.option? = some option) :
    (∀ as, option ∈ (ofAnnotations as).arguments.keys ↔ ¬ c.Denied as) ∧
    (∀ before a after, a.states? c = none →
      ((option ∈ (ofAnnotations (before ++ a :: after)).arguments.keys ↔
          option ∈ (ofAnnotations (before ++ after)).arguments.keys) ↔
        ¬ (a.capability? = some c ∧ c.Denied before ∧
          ∀ later ∈ after, later.capability? ≠ some c))) ∧
    ∀ service d r, build service d = .ok r → ∀ key o, r.get? key = some (.object o) →
      o.arguments =
        (ofAnnotations (d.annotations.about ⟨Csdl.Document.annotatedName key, ""⟩)).arguments := by
  refine ⟨fun as => Capabilities.offers_iff hc,
    fun before a after ha => Capabilities.offers_insert_iff hc ha, ?_⟩
  intro service d r hr key o ho
  rw [(shows_typeCapabilities hr ho).arguments, Csdl.Document.typeCapabilities,
    Csdl.AnnotationTargets.ofTarget_eq_about]

/-- An annotation that restricts counting, with one property of its record if there is any. -/
def countRestrictions (property : Option (String × Bool)) : AppliedTerm where
  term := "Org.OData.Capabilities.V1.CountRestrictions"
  record := match property with
    | some (name, value) => (∅ : OrderedMap String Csdl.PropertyValue).insert name
        { attributes := (∅ : OrderedMap String String).insert "Bool"
            (if value then "true" else "false") }
    | none => ∅

/-- Once counting is declared impossible it is not offered. -/
theorem offers_of_countRestrictions :
    "_count" ∉ (ofAnnotations [countRestrictions (some ("Countable", false))]).arguments.keys := by
  have hterm : (countRestrictions (some ("Countable", false))).states? .count = some false := by
    decide
  rw [(offers_of_build (c := .count) rfl).1, not_not]
  exact ⟨[], _, [], rfl, hterm, nofun⟩

/-- Counting is offered again if the term comes once more and says nothing about it. -/
theorem not_forall_offers_insert : ¬ ∀ (c : Capability) option, c.option? = some option →
    ∀ before a after, a.states? c = none →
      (option ∈ (ofAnnotations (before ++ a :: after)).arguments.keys ↔
        option ∈ (ofAnnotations (before ++ after)).arguments.keys) := by
  intro h
  have hiff := h .count "_count" rfl [countRestrictions (some ("Countable", false))]
    (countRestrictions none) [] (by decide)
  revert hiff
  decide

end Registry

end ODataGraph
