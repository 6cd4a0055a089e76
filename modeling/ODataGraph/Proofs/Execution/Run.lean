import ODataGraph.Proofs.Execution.Outcome
import ODataGraph.Proofs.Json.Equality

/-!
Resolvers only add to the log, and do not read it: what a resolver comes to and the events that it
adds are the same whatever was logged before. Runs of a sequence are put together from runs of its
parts and taken apart again.
-/

namespace ODataGraph

deriving instance DecidableEq for FieldError, GraphQLError, Event

namespace Resolver

variable {α β : Type} {r : Resolver α} {f : α → Resolver β} {a : α} {error : FieldError}
variable {outcome : Except FieldError α} {events more : Log}

/-- A resolver comes to an outcome and adds events to the log. -/
def Runs (r : Resolver α) (outcome : Except FieldError α) (events : Log) : Prop :=
  ∀ log, r.run.run log = (outcome, log ++ events)

/-- What was logged before makes no difference to a resolver. -/
def Appends (r : Resolver α) : Prop := ∃ outcome events, r.Runs outcome events

theorem Runs.gives (h : r.Runs outcome events) : r.Gives outcome := ⟨[], [] ++ events, h []⟩

theorem Runs.run_nil (h : r.Runs outcome events) : r.run.run [] = (outcome, events) := h []

theorem gives_of_run_nil (h : (r.run.run []).1 = outcome) : r.Gives outcome :=
  ⟨[], _, Prod.ext h rfl⟩

theorem Runs.unique {outcome' : Except FieldError α} (h : r.Runs outcome events)
    (h' : r.Runs outcome' more) : outcome = outcome' ∧ events = more :=
  Prod.mk.inj (h.run_nil.symm.trans h'.run_nil)

/-- The run from an empty log is the run from any log. -/
theorem Appends.runs (hr : r.Appends) (h : r.run.run [] = (outcome, events)) :
    r.Runs outcome events := by
  obtain ⟨outcome', events', h'⟩ := hr
  obtain ⟨rfl, rfl⟩ := Prod.mk.inj (h'.run_nil.symm.trans h)
  exact h'

/-- A resolver comes to the same from any log. -/
theorem Appends.runs_of_gives (hr : r.Appends) (h : r.Gives outcome) :
    ∃ events, r.Runs outcome events := by
  obtain ⟨outcome', events, hruns⟩ := hr
  obtain ⟨log, log', hrun⟩ := h
  cases (Prod.mk.inj ((hruns log).symm.trans hrun)).1
  exact ⟨events, hruns⟩

theorem runs_pure (a : α) : Runs (pure a) (.ok a) [] := by
  intro log
  rw [List.append_nil]
  rfl

theorem runs_throw (error : FieldError) : Runs (throw error : Resolver α) (.error error) [] := by
  intro log
  rw [List.append_nil]
  rfl

theorem runs_lift (outcome : Except FieldError α) : Runs (lift outcome) outcome [] := by
  intro log
  rw [List.append_nil]
  rfl

theorem runs_log (event : Event) : Runs (log event) (.ok ()) [event] := fun _ => rfl

theorem appends_pure (a : α) : Appends (pure a) := ⟨_, _, runs_pure a⟩

theorem appends_throw (error : FieldError) : Appends (throw error : Resolver α) :=
  ⟨_, _, runs_throw error⟩

theorem appends_lift (outcome : Except FieldError α) : Appends (lift outcome) :=
  ⟨_, _, runs_lift outcome⟩

theorem appends_log (event : Event) : Appends (log event) := ⟨_, _, runs_log event⟩

theorem runs_pure_iff : Runs (pure a) outcome events ↔ outcome = .ok a ∧ events = [] := by
  constructor
  · intro h
    exact h.unique (runs_pure a)
  · rintro ⟨rfl, rfl⟩
    exact runs_pure a

theorem runs_throw_iff :
    Runs (throw error : Resolver α) outcome events ↔ outcome = .error error ∧ events = [] := by
  constructor
  · intro h
    exact h.unique (runs_throw error)
  · rintro ⟨rfl, rfl⟩
    exact runs_throw error

section Bind

variable {outcome : Except FieldError β}

theorem Runs.bind (h : r.Runs (.ok a) events) (hf : (f a).Runs outcome more) :
    Runs (r >>= f) outcome (events ++ more) := by
  intro log
  rw [run_bind, h log, ← List.append_assoc]
  exact hf _

theorem Runs.bind_error (h : r.Runs (.error error) events) :
    Runs (r >>= f) (.error error) events := by
  intro log
  rw [run_bind, h log]

theorem Runs.map (h : r.Runs (.ok a) events) (g : α → β) :
    Runs (r >>= fun a => pure (g a)) (.ok (g a)) events := by
  have hbind : Runs (r >>= fun a => pure (g a)) _ _ := h.bind (runs_pure (g a))
  rw [List.append_nil] at hbind
  exact hbind

theorem Appends.bind (hr : r.Appends) (hf : ∀ a, (f a).Appends) : Appends (r >>= f) := by
  obtain ⟨outcome, events, h⟩ := hr
  cases outcome with
  | error error => exact ⟨_, _, h.bind_error⟩
  | ok a =>
    obtain ⟨outcome', events', h'⟩ := hf a
    exact ⟨_, _, h.bind h'⟩

/-- A sequence ends with the error of its first part, or the second part runs after the first. -/
theorem Runs.cases_bind (h : Runs (r >>= f) outcome events) (hr : r.Appends)
    (hf : ∀ a, (f a).Appends) :
    (∃ error, r.Runs (.error error) events ∧ outcome = .error error) ∨
      ∃ a first rest, r.Runs (.ok a) first ∧ (f a).Runs outcome rest ∧ events = first ++ rest := by
  obtain ⟨outcome', first, hr⟩ := hr
  cases outcome' with
  | error error =>
    obtain ⟨rfl, rfl⟩ := h.unique hr.bind_error
    exact .inl ⟨error, hr, rfl⟩
  | ok a =>
    obtain ⟨outcome'', rest, hrest⟩ := hf a
    obtain ⟨rfl, rfl⟩ := h.unique (hr.bind hrest)
    exact .inr ⟨a, first, rest, hr, hrest, rfl⟩

theorem Runs.cases_lift_bind {given : Except FieldError α}
    (h : Runs (lift given >>= f) outcome events) :
    (∃ error, given = .error error ∧ outcome = .error error ∧ events = []) ∨
      ∃ a, given = .ok a ∧ (f a).Runs outcome events := by
  cases given with
  | error error =>
    obtain ⟨rfl, rfl⟩ := h.unique (runs_lift _).bind_error
    exact .inl ⟨error, rfl, rfl, rfl⟩
  | ok a => exact .inr ⟨a, rfl, h⟩

end Bind

section Recover

variable {exposure : Exposure} {path : Path} {r : Resolver Json} {v : Json}

theorem Runs.recover_ok (h : r.Runs (.ok v) events) :
    (recover exposure path r).Runs (.ok v) events := by
  intro log
  rw [run_recover, h log]

theorem Runs.recover_of_recoverable (h : r.Runs (.error error) events)
    (herror : error.isRecoverable = true) :
    (recover exposure path r).Runs (.ok .null)
      (events ++ [.fail (error.toGraphQL exposure (some path))]) := by
  intro log
  rw [run_recover, h log]
  simp only [herror, if_true, List.append_assoc]

theorem Runs.recover_of_not_recoverable (h : r.Runs (.error error) events)
    (herror : error.isRecoverable = false) :
    (recover exposure path r).Runs (.error error) events := by
  intro log
  rw [run_recover, h log]
  simp only [herror, Bool.false_eq_true, if_false]

theorem Appends.recover (hr : r.Appends) : (recover exposure path r).Appends := by
  obtain ⟨outcome, events, h⟩ := hr
  cases outcome with
  | ok v => exact ⟨_, _, h.recover_ok⟩
  | error error =>
    cases herror : error.isRecoverable with
    | true => exact ⟨_, _, h.recover_of_recoverable herror⟩
    | false => exact ⟨_, _, h.recover_of_not_recoverable herror⟩

/-- Either nothing is recovered, or a recoverable error is listed last and gives null. -/
theorem Runs.cases_recover {outcome : Except FieldError Json}
    (h : (Resolver.recover exposure path r).Runs outcome events) (hr : r.Appends) :
    (r.Runs outcome events ∧ ∀ error, outcome = .error error → error.isRecoverable = false) ∨
      ∃ error before, r.Runs (.error error) before ∧ error.isRecoverable = true ∧
        outcome = .ok .null ∧
        events = before ++ [.fail (error.toGraphQL exposure (some path))] := by
  obtain ⟨outcome', before, hr⟩ := hr
  cases outcome' with
  | ok v =>
    obtain ⟨rfl, rfl⟩ := h.unique hr.recover_ok
    exact .inl ⟨hr, nofun⟩
  | error error =>
    cases herror : error.isRecoverable with
    | true =>
      obtain ⟨rfl, rfl⟩ := h.unique (hr.recover_of_recoverable herror)
      exact .inr ⟨error, before, hr, herror, rfl, rfl⟩
    | false =>
      obtain ⟨rfl, rfl⟩ := h.unique (hr.recover_of_not_recoverable herror)
      refine .inl ⟨hr, ?_⟩
      intro error' heq
      cases heq
      exact herror

/-- Events before a run do not change what it recovers from. -/
theorem Runs.recover_bind {ask : Resolver α} {f : α → Resolver Json}
    {outcome : Except FieldError Json} {asked : Log} (hask : ask.Runs (.ok a) asked)
    (hf : (f a).Appends) (h : (Resolver.recover exposure path (f a)).Runs outcome events) :
    (Resolver.recover exposure path (ask >>= f)).Runs outcome (asked ++ events) := by
  rcases h.cases_recover hf with ⟨hruns, hfatal⟩ | ⟨error, before, hruns, herror, rfl, rfl⟩
  · have hbind := hask.bind hruns
    cases outcome with
    | ok v => exact hbind.recover_ok
    | error error => exact hbind.recover_of_not_recoverable (hfatal error rfl)
  · rw [← List.append_assoc]
    exact (hask.bind hruns).recover_of_recoverable herror

theorem not_recoverable_of_recover (h : (recover exposure path r).Gives (.error error)) :
    error.isRecoverable = false := by
  obtain ⟨log, log', h⟩ := h
  rw [run_recover] at h
  rcases hr : r.run.run log with ⟨e | a, log₁⟩
  · rw [hr] at h
    cases herror : e.isRecoverable with
    | true =>
      simp only [herror, if_true] at h
      cases h
    | false =>
      simp only [herror, Bool.false_eq_true, if_false] at h
      cases h
      exact herror
  · rw [hr] at h
    cases h

end Recover

end Resolver

end ODataGraph
