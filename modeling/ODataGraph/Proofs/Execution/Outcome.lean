import Mathlib.Data.List.Forall2
import ODataGraph.Execution.Resolve

/-!
What a resolver can come to, whatever was logged before. Outcomes are read back step by step: the
outcome of a sequence is that of its parts.
-/

namespace ODataGraph

namespace Resolver

variable {α β : Type}

/-- A resolver comes to a result or an error. -/
def Gives (r : Resolver α) (outcome : Except FieldError α) : Prop :=
  ∃ log log', r.run.run log = (outcome, log')

variable {r : Resolver α} {error : FieldError}

@[simp] theorem gives_pure {a : α} {outcome : Except FieldError α} :
    Gives (pure a) outcome ↔ outcome = .ok a := by
  constructor
  · rintro ⟨log, log', h⟩
    exact (congrArg Prod.fst h).symm
  · rintro rfl
    exact ⟨[], [], rfl⟩

@[simp] theorem gives_throw {outcome : Except FieldError α} :
    Gives (throw error) outcome ↔ outcome = .error error := by
  constructor
  · rintro ⟨log, log', h⟩
    exact (congrArg Prod.fst h).symm
  · rintro rfl
    exact ⟨[], [], rfl⟩

@[simp] theorem gives_lift {a outcome : Except FieldError α} :
    Gives (lift a) outcome ↔ outcome = a := by
  constructor
  · rintro ⟨log, log', h⟩
    exact (congrArg Prod.fst h).symm
  · rintro rfl
    exact ⟨[], [], rfl⟩

@[simp] theorem gives_log {event : Event} {outcome : Except FieldError Unit} :
    Gives (log event) outcome ↔ outcome = .ok () := by
  constructor
  · rintro ⟨log, log', h⟩
    exact (congrArg Prod.fst h).symm
  · rintro rfl
    exact ⟨[], [event], rfl⟩

theorem run_bind (r : Resolver α) (f : α → Resolver β) (log : Log) :
    (r >>= f).run.run log = match r.run.run log with
      | (.ok a, log') => (f a).run.run log'
      | (.error error, log') => (.error error, log') := by
  rw [ExceptT.run_bind, StateT.run_bind]
  rcases r.run.run log with ⟨_ | a, log'⟩
  · rfl
  · rfl

theorem gives_bind_ok {f : α → Resolver β} {b : β} (h : Gives (r >>= f) (.ok b)) :
    ∃ a, r.Gives (.ok a) ∧ (f a).Gives (.ok b) := by
  obtain ⟨log, log', h⟩ := h
  rw [run_bind] at h
  rcases hr : r.run.run log with ⟨_ | a, log₁⟩
  · rw [hr] at h
    cases h
  · rw [hr] at h
    exact ⟨a, ⟨log, log₁, hr⟩, log₁, log', h⟩

theorem gives_bind_error {f : α → Resolver β} (h : Gives (r >>= f) (.error error)) :
    r.Gives (.error error) ∨ ∃ a, r.Gives (.ok a) ∧ (f a).Gives (.error error) := by
  obtain ⟨log, log', h⟩ := h
  rw [run_bind] at h
  rcases hr : r.run.run log with ⟨e | a, log₁⟩
  · rw [hr] at h
    cases h
    exact .inl ⟨log, log', hr⟩
  · rw [hr] at h
    exact .inr ⟨a, ⟨log, log₁, hr⟩, log₁, log', h⟩

theorem gives_mapM_ok {f : α → Resolver β} {as : List α} {bs : List β}
    (h : Gives (as.mapM f) (.ok bs)) : List.Forall₂ (fun a b => (f a).Gives (.ok b)) as bs := by
  induction as generalizing bs with
  | nil =>
    rw [List.mapM_nil, gives_pure] at h
    cases h
    exact .nil
  | cons a as ih =>
    rw [List.mapM_cons] at h
    obtain ⟨b, hb, h⟩ := gives_bind_ok h
    obtain ⟨rest, hrest, h⟩ := gives_bind_ok h
    rw [gives_pure] at h
    cases h
    exact .cons hb (ih hrest)

theorem gives_zipIdx_mapM_ok {f : α × Nat → Resolver β} {as : List α} {bs : List β}
    (h : Gives (as.zipIdx.mapM f) (.ok bs)) {i : Nat} {b : β} (hb : bs[i]? = some b) :
    ∃ a, as[i]? = some a ∧ (f (a, i)).Gives (.ok b) := by
  obtain ⟨hlt, hb⟩ := List.getElem?_eq_some_iff.1 hb
  have hall := gives_mapM_ok h
  have hlen := hall.length_eq
  have hlt' : i < as.length := by rwa [← List.length_zipIdx, hlen]
  have hget := hall.get (hlen ▸ hlt) hlt
  simp only [List.get_eq_getElem, List.getElem_zipIdx, Nat.zero_add, hb] at hget
  exact ⟨as[i], List.getElem?_eq_getElem hlt', hget⟩

theorem gives_mapM_error {f : α → Resolver β} {as : List α}
    (h : Gives (as.mapM f) (.error error)) : ∃ a ∈ as, (f a).Gives (.error error) := by
  induction as with
  | nil =>
    rw [List.mapM_nil, gives_pure] at h
    cases h
  | cons a as ih =>
    rw [List.mapM_cons] at h
    rcases gives_bind_error h with ha | ⟨b, _, h⟩
    · exact ⟨a, List.mem_cons_self, ha⟩
    · rcases gives_bind_error h with hrest | ⟨rest, _, h⟩
      · obtain ⟨a', ha', hf⟩ := ih hrest
        exact ⟨a', List.mem_cons_of_mem _ ha', hf⟩
      · rw [gives_pure] at h
        cases h

theorem gives_zipIdx_mapM_error {f : α × Nat → Resolver β} {as : List α}
    (h : Gives (as.zipIdx.mapM f) (.error error)) :
    ∃ a i, as[i]? = some a ∧ (f (a, i)).Gives (.error error) := by
  obtain ⟨⟨a, i⟩, hmem, h⟩ := gives_mapM_error h
  exact ⟨a, i, List.mk_mem_zipIdx_iff_getElem?.1 hmem, h⟩

theorem run_recover (exposure : Exposure) (path : Path) (r : Resolver Json) (log : Log) :
    (recover exposure path r).run.run log = match r.run.run log with
      | (.ok v, log') => (.ok v, log')
      | (.error error, log') =>
        if error.isRecoverable then
          (.ok .null, log' ++ [.fail (error.toGraphQL exposure (some path))])
        else (.error error, log') := by
  rw [recover, ExceptT.run_tryCatch, StateT.run_bind]
  rcases r.run.run log with ⟨error | v, log'⟩
  · change (ite _ _ _ : Resolver Json).run.run log' = ite _ _ _
    split
    · rfl
    · rfl
  · rfl

theorem gives_recover_ok {exposure : Exposure} {path : Path} {r : Resolver Json} {v : Json}
    (h : Gives (recover exposure path r) (.ok v)) : r.Gives (.ok v) ∨ v = .null := by
  obtain ⟨log, log', h⟩ := h
  rw [run_recover] at h
  rcases hr : r.run.run log with ⟨error | a, log₁⟩
  · rw [hr] at h
    dsimp only at h
    split at h
    · cases h
      exact .inr rfl
    · cases h
  · rw [hr] at h
    cases h
    exact .inl ⟨log, log', hr⟩

theorem gives_recover_error {exposure : Exposure} {path : Path} {r : Resolver Json}
    (h : Gives (recover exposure path r) (.error error)) : r.Gives (.error error) := by
  obtain ⟨log, log', h⟩ := h
  rw [run_recover] at h
  rcases hr : r.run.run log with ⟨e | a, log₁⟩
  · rw [hr] at h
    dsimp only at h
    split at h
    · cases h
    · cases h
      exact ⟨log, log', hr⟩
  · rw [hr] at h
    cases h

end Resolver

end ODataGraph
