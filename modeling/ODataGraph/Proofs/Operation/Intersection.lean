import ODataGraph.Proofs.Execution.Coverage
import ODataGraph.Proofs.Operation.Acceptance
import ODataGraph.Proofs.Registry.TypeName

/-!
Fragments within each other mean the intersection of their types. A field that stands in them is
selected on the objects that are of all these types, also if a type is wider than one around it, and
carries a condition exactly if there are others in its scope.
-/

namespace ODataGraph

namespace Registry

variable {service : Service} {d : Csdl.Document} {r : Registry} {t name : String}

/-- An object is one that values of the type with a name can be. -/
def IsPossible (r : Registry) (t name : String) : Prop :=
  ∃ key type, r.get? key = some type ∧ type.name = name ∧ t ∈ r.possibleTypes key

/-- The type that is found by a name is the only one of that name. -/
theorem isPossible_iff (hr : build service d = .ok r) : r.IsPossible t name ↔
    (r.findByName? name).any (fun (key, _) => (r.possibleTypes key).contains t) = true := by
  simp only [Option.any_eq_true, List.contains_iff_mem, Prod.exists, IsPossible]
  constructor
  · rintro ⟨key, type, htype, rfl, ht⟩
    exact ⟨key, type, findByName?_name hr htype, ht⟩
  · rintro ⟨key, type, hfound, ht⟩
    obtain ⟨htype, hname⟩ := get?_of_findByName? hfound
    exact ⟨key, type, htype, hname, ht⟩

end Registry

namespace Scope

variable {service : Service} {d : Csdl.Document} {r : Registry} {key t c : String} {s : Scope}
  {conditions : List String}

theorem cases_ofType? (hs : ofType? r key = some s) :
    s.registry = r ∧ s.possibleTypes = r.possibleTypes key ∧
      ∃ type, r.get? key = some type ∧ type.name = s.typeName := by
  obtain ⟨type, htype, hs⟩ := Option.bind_eq_some_iff.1 hs
  cases hs
  exact ⟨rfl, rfl, type, (Option.filter_eq_some_iff.1 htype).1, rfl⟩

/-- Also the condition that is the scope's own type asks for nothing but the type of that name. -/
theorem satisfies_iff (hr : Registry.build service d = .ok r) (hs : ofType? r key = some s)
    (ht : t ∈ s.possibleTypes) : s.satisfies t c = true ↔ r.IsPossible t c := by
  obtain ⟨rfl, hpossible, type, htype, hname⟩ := cases_ofType? hs
  rw [Registry.isPossible_iff hr, satisfies, Bool.or_eq_true, decide_eq_true_iff]
  constructor
  · rintro (rfl | hfound)
    · rw [← Registry.isPossible_iff hr]
      exact ⟨key, type, htype, hname, hpossible ▸ ht⟩
    · exact hfound
  · exact Or.inr

theorem mem_left_iff (hr : Registry.build service d = .ok r) (hs : ofType? r key = some s)
    (ht : t ∈ s.possibleTypes) :
    t ∈ s.left conditions ↔ ∀ c ∈ conditions, r.IsPossible t c := by
  rw [left, List.mem_filter, List.all_eq_true, and_iff_right ht]
  exact forall₂_congr fun c _ => satisfies_iff hr hs ht

/-- Only the scope's own type takes nothing away. -/
theorem left_of_innermost?_eq_none (h : s.innermost? conditions = none) :
    s.left conditions = s.possibleTypes := by
  rw [innermost?, List.getLast?_eq_none_iff, List.filter_eq_nil_iff] at h
  rw [left, List.filter_eq_self]
  intro t _
  rw [List.all_eq_true]
  intro c hc
  rw [satisfies, Bool.or_eq_true]
  exact .inl (by simpa using h c hc)

section Carried

variable {selection : Selection}

/-- With the condition that it carries a selection applies to what is left, though the condition is
dropped if that is everything. -/
theorem appliesTo_iff (h : selection.condition = s.condition (s.within conditions))
    (ht : t ∈ s.possibleTypes) : selection.appliesTo t = true ↔ t ∈ s.left conditions := by
  rw [condition_within] at h
  rw [Selection.appliesTo, h]
  by_cases hall : s.left conditions = s.possibleTypes
  · rw [if_pos hall, hall]
    exact ⟨fun _ => ht, fun _ => rfl⟩
  · rw [if_neg hall]
    cases hinnermost : s.innermost? conditions with
    | none => exact absurd (left_of_innermost?_eq_none hinnermost) hall
    | some name => exact List.contains_iff_mem

theorem condition_isSome_iff (h : selection.condition = s.condition (s.within conditions)) :
    selection.condition.isSome = true ↔
      ∃ t ∈ s.possibleTypes, selection.appliesTo t = false := by
  constructor
  · intro hsome
    by_contra hnone
    push Not at hnone
    have hall : s.left conditions = s.possibleTypes := by
      refine List.filter_eq_self.2 fun t ht => ?_
      have hleft := (appliesTo_iff h ht).1 (by simpa using hnone t ht)
      exact (List.mem_filter.1 hleft).2
    rw [h, condition_within, if_pos hall] at hsome
    cases hsome
  · rintro ⟨t, _, hfalse⟩
    rw [Selection.appliesTo] at hfalse
    cases hcondition : selection.condition with
    | none =>
      rw [hcondition] at hfalse
      cases hfalse
    | some condition => rfl

end Carried

end Scope

/-- A selection on values of a type means the intersection of the types of fragments: it applies to
the objects that are of all of them, and carries a condition if there are others. -/
structure Selection.Intersects (r : Registry) (key : String) (conditions : List String)
    (s : Selection) : Prop where
  applies : ∀ t ∈ r.possibleTypes key,
    (s.appliesTo t = true ↔ ∀ c ∈ conditions, r.IsPossible t c)
  carries : s.condition.isSome = true ↔ ∃ t ∈ r.possibleTypes key, s.appliesTo t = false

namespace Graphql

/-- A selection in fragments within each other. -/
def Selection.within (conditions : List String) (s : Selection) : Selection :=
  conditions.foldr (fun c inner => .inline (some c) [] [inner]) s

namespace Environment

variable {e : Environment} {service : Service} {d : Csdl.Document} {r : Registry} {key : String}
  {s : Scope} {f : SelectedField} {selection : ODataGraph.Selection}

theorem condition_of_completeField {below : Below}
    (h : (e.completeField below s f).run = some (.ok selection)) :
    selection.condition = s.condition (s.within f.conditions) := by
  obtain ⟨head, hhead, hcases⟩ := cases_completeField h
  obtain ⟨_, _, _, hcondition, _⟩ := of_headOf_eq_ok hhead
  rcases hcases with ⟨_, rfl⟩ | ⟨_, _, _, _, rfl⟩
  · exact hcondition
  · exact hcondition

theorem intersects_of_completeField (hr : Registry.build service d = .ok r)
    (hs : Scope.ofType? r key = some s) {below : Below}
    (h : (e.completeField below s f).run = some (.ok selection)) :
    selection.Intersects r key f.conditions := by
  have hcondition := condition_of_completeField h
  obtain ⟨_, hpossible, _⟩ := Scope.cases_ofType? hs
  constructor
  case applies =>
    intro t ht
    rw [← hpossible] at ht
    rw [Scope.appliesTo_iff hcondition ht, Scope.mem_left_iff hr hs ht]
  case carries =>
    rw [Scope.condition_isSome_iff hcondition, hpossible]

theorem fields_within (spread : List String → String → Except RequestError (List SelectedField))
    (before conditions : List String) (f : SelectedField) :
    Selection.fields e.bindings spread before
        (Selection.within conditions (.field f.responseKey f.name f.arguments [] f.selections)) =
      .ok [{ f with conditions := before ++ conditions }] := by
  induction conditions generalizing before with
  | nil =>
    rw [List.append_nil]
    rfl
  | cons c conditions ih =>
    have hinner := ih (before ++ [c])
    rw [List.append_assoc, List.singleton_append, Selection.within] at hinner
    rw [Selection.within, List.foldr_cons]
    simp only [Selection.fields, Directive.included, Selection.allFields, Option.toList_some,
      hinner]
    rfl

/-- A field in fragments is what is selected by it. -/
theorem fieldsOf_within (f : SelectedField) :
    e.fieldsOf [Selection.within f.conditions
      (.field f.responseKey f.name f.arguments [] f.selections)] = .ok [f] := by
  rw [fieldsOf, Selection.allFields, fields_within]
  rfl

def typename (conditions : List String) : SelectedField where
  responseKey := typenameField
  name := typenameField
  arguments := []
  selections := []
  conditions

/-- Fragments within each other mean the intersection of their types wherever fields are selected on
an object or a union, however they widen and narrow; and if narrowing by their types accepts them
there are selections in them. -/
theorem intersects_of_narrow (hr : Registry.build service d = .ok r)
    (hs : Scope.ofType? r key = some s) {conditions : List String} {n : Scope.Narrowed}
    (hn : s.narrow conditions = .ok n) (e : Environment) :
    (∀ l fields selections, e.fieldsOf l = .ok fields →
      e.normalize s l = some (.ok selections) →
      List.Forall₂ (fun f selection => f.conditions = conditions →
        selection.Intersects r key conditions) fields selections) ∧
    ∃ selection, e.normalize s [Selection.within conditions
      (.field typenameField typenameField [] [] [])] = some (.ok [selection]) := by
  constructor
  · intro l fields selections hfields h
    rw [normalize_eq, normalizeBy, Normalization.run_lift_bind, hfields] at h
    refine (Normalization.run_mapM_eq_ok_iff.1 h).imp fun f selection hf hconditions => ?_
    rw [← hconditions]
    exact intersects_of_completeField hr hs hf
  · obtain ⟨hadmits, _⟩ := Scope.narrow_eq_ok_iff.1 hn
    obtain ⟨head, hhead, hbelow⟩ :=
      exists_headOf_typename (e := e) (f := typename conditions) hadmits rfl rfl
    have hfield : (e.completeField e.normalize s (typename conditions)).run =
        some (.ok head.selection) := run_completeField_of_none hhead hbelow
    refine ⟨head.selection, ?_⟩
    rw [normalize_eq, normalizeBy, Normalization.run_lift_bind]
    have hfields := fieldsOf_within (e := e) (typename conditions)
    dsimp only [typename] at hfields
    rw [hfields]
    exact Normalization.run_mapM_eq_ok_iff.2 (.cons hfield .nil)

end Environment

end Graphql

namespace Kennel

/-- Values of a dog can be a puppy, or a dog that is nothing more. -/
def dogs : Scope :=
  match Scope.ofType? registry "Dog" with
  | some s => s
  | none => .root registry registry.queryRoot

theorem ofType?_dog : Scope.ofType? registry "Dog" = some dogs := by rfl

/-- The inner type is wider than the outer one, and than the dog. -/
def puppies : List String := ["zoo_Puppy", "zoo_Animal"]

def typename : Graphql.Selection :=
  .within puppies (.field typenameField typenameField [] [] [])

theorem isPossible_puppy : ∀ c ∈ puppies, registry.IsPossible "Puppy" c := by
  intro c hc
  rw [Registry.isPossible_iff build_kennel]
  revert c
  decide

theorem not_isPossible_dog : ¬ registry.IsPossible "Dog_Base" "zoo_Puppy" := by
  rw [Registry.isPossible_iff build_kennel]
  decide

end Kennel

/-- Animals among the puppies among the dogs are the puppies. -/
theorem intersects_of_kennel :
    Registry.build Kennel.service Registry.kennel = .ok Kennel.registry ∧
    Scope.ofType? Kennel.registry "Dog" = some Kennel.dogs ∧
    (∃ n, Kennel.dogs.narrow Kennel.puppies = .ok n) ∧
    ∃ selection, Graphql.Environment.normalize ⟨∅, ∅⟩ Kennel.dogs [Kennel.typename] =
        some (.ok [selection]) ∧
      selection.Intersects Kennel.registry "Dog" Kennel.puppies ∧
      selection.appliesTo "Puppy" = true ∧ selection.appliesTo "Dog_Base" = false := by
  obtain ⟨n, hn⟩ : ∃ n, Kennel.dogs.narrow Kennel.puppies = .ok n := ⟨_, rfl⟩
  obtain ⟨hall, selection, hselection⟩ :=
    Graphql.Environment.intersects_of_narrow Kennel.build_kennel Kennel.ofType?_dog hn ⟨∅, ∅⟩
  have hfields := Graphql.Environment.fieldsOf_within (e := ⟨∅, ∅⟩)
    (Graphql.Environment.typename Kennel.puppies)
  obtain ⟨hintersects, _⟩ := List.forall₂_cons.1 (hall _ _ _ hfields hselection)
  have hmeans := hintersects rfl
  refine ⟨Kennel.build_kennel, Kennel.ofType?_dog, ⟨n, hn⟩, selection, hselection, hmeans, ?_, ?_⟩
  · exact (hmeans.applies "Puppy" (by decide)).2 Kennel.isPossible_puppy
  · have hnot := mt (hmeans.applies "Dog_Base" (by decide)).1
    rw [Bool.not_eq_true] at hnot
    exact hnot fun h => Kennel.not_isPossible_dog (h _ List.mem_cons_self)

end ODataGraph
