import Mathlib.Data.Set.Card
import Mathlib.Logic.Relation
import Mathlib.Order.CompletePartialOrder

/-! Steps that lead only to finitely many places come to an end, or back to where they were. -/

namespace ODataGraph

open Relation (ReflTransGen TransGen)

variable {α : Type*} {R : α → α → Prop} {a b : α}

theorem reachable_ssubset (hab : R a b) (ha : ¬ TransGen R a a) :
    {c | ReflTransGen R b c} ⊂ {c | ReflTransGen R a c} := by
  refine ⟨fun c hc => .head hab hc, fun hsub => ha ?_⟩
  have hba : ReflTransGen R b a := hsub .refl
  exact .head' hab hba

/-- Where finitely many places are reached and none of them again from itself, there is an end. -/
theorem acc_of_acyclic (hfin : {b | ReflTransGen R a b}.Finite)
    (hacyclic : ∀ b, ReflTransGen R a b → ¬ TransGen R b b) : Acc (flip R) a := by
  induction hn : {b | ReflTransGen R a b}.ncard using Nat.strong_induction_on generalizing a with
  | _ n ih =>
    refine ⟨_, fun b hab => ?_⟩
    have hab : R a b := hab
    have hss := reachable_ssubset hab (hacyclic a .refl)
    have hlt := Set.ncard_lt_ncard hss hfin
    exact ih _ (hn ▸ hlt) (hfin.subset hss.subset) (fun c hc => hacyclic c (.head hab hc)) rfl

/-- From a place the steps can be followed for ever. -/
def NeverEnds (R : α → α → Prop) (a : α) : Prop :=
  ∃ f : Nat → α, f 0 = a ∧ ∀ n, R (f n) (f (n + 1))

/-- Among places each of which leads to one of them, no way comes to an end. -/
theorem neverEnds_of_forall_exists {l : List α} (h : ∀ a ∈ l, ∃ b ∈ l, R a b) (ha : a ∈ l) :
    NeverEnds R a := by
  choose next hmem hnext using h
  let step (x : {a // a ∈ l}) : {a // a ∈ l} := ⟨next x.1 x.2, hmem x.1 x.2⟩
  refine ⟨fun n => (step^[n] ⟨a, ha⟩).1, rfl, fun n => ?_⟩
  dsimp only
  rw [Function.iterate_succ_apply']
  exact hnext _ _

end ODataGraph
