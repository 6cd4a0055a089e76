import ODataGraph.Operation.Root

/-!
Normalizing to a bounded depth. What is normalized at all is normalized at some depth, so that
statements about `normalize` are proved by induction on it.
-/

namespace ODataGraph

namespace Normalization

variable {α β : Type}

theorem run_bind (x : Normalization α) (f : α → Normalization β) :
    (x >>= f).run = x.run.bind fun
      | .ok a => (f a).run
      | .error error => some (.error error) := by
  rcases x with _ | _ | a <;> rfl

@[simp] theorem run_pure (a : α) : (pure a : Normalization α).run = some (.ok a) := rfl

@[simp] theorem run_lift (r : Except RequestError α) : (lift r).run = some r := rfl

@[simp] theorem run_lift_bind (r : Except RequestError α) (f : α → Normalization β) :
    (lift r >>= f).run = match r with
      | .ok a => (f a).run
      | .error error => some (.error error) := by
  cases r <;> rfl

theorem run_bind_eq_some_iff {x : Normalization α} {f : α → Normalization β}
    {r : Except RequestError β} :
    (x >>= f).run = some r ↔
      (∃ a, x.run = some (.ok a) ∧ (f a).run = some r) ∨
      (∃ error, x.run = some (.error error) ∧ r = .error error) := by
  rw [run_bind]
  rcases x.run with _ | _ | a <;> simp [eq_comm]

theorem run_bind_eq_ok_iff {x : Normalization α} {f : α → Normalization β} {b : β} :
    (x >>= f).run = some (.ok b) ↔ ∃ a, x.run = some (.ok a) ∧ (f a).run = some (.ok b) := by
  rw [run_bind_eq_some_iff]
  simp only [reduceCtorEq, and_false, exists_false, or_false]

theorem run_bind_eq_none_iff {x : Normalization α} {f : α → Normalization β} :
    (x >>= f).run = none ↔ x.run = none ∨ ∃ a, x.run = some (.ok a) ∧ (f a).run = none := by
  rw [run_bind]
  rcases x.run with _ | _ | a <;> simp

theorem run_bind_of_error {x : Normalization α} {f : α → Normalization β} {error : RequestError}
    (h : x.run = some (.error error)) : (x >>= f).run = some (.error error) := by
  rw [run_bind, h, Option.bind_some]

theorem run_bind_of_ok {x : Normalization α} {f : α → Normalization β} {a : α}
    (h : x.run = some (.ok a)) : (x >>= f).run = (f a).run := by
  rw [run_bind, h, Option.bind_some]

/-- A result of one computation is one of another. -/
def Extends (x y : Normalization α) : Prop := ∀ r, x.run = some r → y.run = some r

theorem Extends.refl (x : Normalization α) : Extends x x := fun _ h => h

theorem Extends.bind {x y : Normalization α} {f g : α → Normalization β} (hx : Extends x y)
    (hf : ∀ a, Extends (f a) (g a)) : Extends (x >>= f) (y >>= g) := by
  intro r hr
  rcases run_bind_eq_some_iff.1 hr with ⟨a, ha, hfa⟩ | ⟨error, he, rfl⟩
  · exact run_bind_eq_some_iff.2 (.inl ⟨a, hx _ ha, hf a _ hfa⟩)
  · exact run_bind_eq_some_iff.2 (.inr ⟨error, hx _ he, rfl⟩)

theorem Extends.mapM {f g : α → Normalization β} (h : ∀ a, Extends (f a) (g a)) (as : List α) :
    Extends (as.mapM f) (as.mapM g) := by
  induction as with
  | nil => exact .refl _
  | cons a as ih =>
    simp only [List.mapM_cons]
    exact (h a).bind fun _ => ih.bind fun _ => .refl _

theorem run_mapM_cons_of_ok {f : α → Normalization β} {a : α} {b : β}
    (h : (f a).run = some (.ok b)) (as : List α) :
    ((a :: as).mapM f).run = ((as.mapM f) >>= fun done => pure (b :: done)).run := by
  rw [List.mapM_cons, run_bind_of_ok h]

/-- Computations that come closer with `n`, and to every result of `x` in the end. -/
structure Approximates (xs : Nat → Normalization α) (x : Normalization α) : Prop where
  extends_of_le : ∀ {m n}, m ≤ n → Extends (xs m) (xs n)
  exists_of_run : ∀ r, x.run = some r → ∃ n, (xs n).run = some r

theorem Approximates.const (x : Normalization α) : Approximates (fun _ => x) x :=
  ⟨fun _ => .refl x, fun _ h => ⟨0, h⟩⟩

theorem Approximates.bind {xs : Nat → Normalization α} {x : Normalization α}
    {fs : Nat → α → Normalization β} {f : α → Normalization β} (hx : Approximates xs x)
    (hf : ∀ a, Approximates (fun n => fs n a) (f a)) :
    Approximates (fun n => xs n >>= fs n) (x >>= f) where
  extends_of_le h := (hx.extends_of_le h).bind fun a => (hf a).extends_of_le h
  exists_of_run r hr := by
    rcases run_bind_eq_some_iff.1 hr with ⟨a, ha, hfa⟩ | ⟨error, he, rfl⟩
    · obtain ⟨m, hm⟩ := hx.exists_of_run _ ha
      obtain ⟨n, hn⟩ := (hf a).exists_of_run _ hfa
      have hm := hx.extends_of_le (Nat.le_max_left m n) _ hm
      have hn := (hf a).extends_of_le (Nat.le_max_right m n) _ hn
      exact ⟨max m n, run_bind_eq_some_iff.2 (.inl ⟨a, hm, hn⟩)⟩
    · obtain ⟨n, hn⟩ := hx.exists_of_run _ he
      exact ⟨n, run_bind_eq_some_iff.2 (.inr ⟨error, hn, rfl⟩)⟩

theorem Approximates.mapM {fs : Nat → α → Normalization β} {f : α → Normalization β}
    (h : ∀ a, Approximates (fun n => fs n a) (f a)) (as : List α) :
    Approximates (fun n => as.mapM (fs n)) (as.mapM f) := by
  induction as with
  | nil => exact .const _
  | cons a as ih =>
    simp only [List.mapM_cons]
    exact (h a).bind fun _ => ih.bind fun _ => .const _

theorem run_mapM_append_cons {f : α → Normalization β} {before : List α} {done : List β}
    (hd : (before.mapM f).run = some (.ok done)) (a : α) (after : List α) :
    ((before ++ a :: after).mapM f).run =
      (f a >>= fun b => after.mapM f >>= fun rest => pure (done ++ b :: rest)).run := by
  rw [List.mapM_append, run_bind_of_ok hd, List.mapM_cons, bind_assoc]
  simp only [bind_assoc, pure_bind]

/-- A list has no result because of its first element without one. -/
theorem run_mapM_eq_none_iff {f : α → Normalization β} {as : List α} :
    (as.mapM f).run = none ↔
      ∃ before a after done, as = before ++ a :: after ∧
        (before.mapM f).run = some (.ok done) ∧ (f a).run = none := by
  constructor
  · intro h
    induction as with
    | nil => cases h
    | cons a as ih =>
      rw [List.mapM_cons, run_bind_eq_none_iff] at h
      obtain ha | ⟨b, hb, h⟩ := h
      · exact ⟨[], a, as, [], rfl, rfl, ha⟩
      · have hrest : (as.mapM f).run = none := by
          obtain hn | ⟨done, _, hp⟩ := run_bind_eq_none_iff.1 h
          · exact hn
          · cases hp
        obtain ⟨before, a', after, done, rfl, hd, hn⟩ := ih hrest
        refine ⟨a :: before, a', after, b :: done, rfl, ?_, hn⟩
        rw [run_mapM_cons_of_ok hb, run_bind_of_ok hd, run_pure]
  · rintro ⟨before, a, after, done, rfl, hd, ha⟩
    rw [run_mapM_append_cons hd]
    exact run_bind_eq_none_iff.2 (.inl ha)

end Normalization

namespace Graphql.Environment

open Normalization (lift Extends Approximates)

variable {e : Environment} {s : Scope}

/-- A field with what is selected on its value, as `below` normalizes that. -/
def completeField (e : Environment) (below : Below) (s : Scope) (f : SelectedField) :
    Normalization ODataGraph.Selection := do
  let head ← lift (e.headOf s f)
  match head.below with
  | some scope => return { head.selection with fields := ← below scope f.selections }
  | none => return head.selection

/-- One level of normalizing. -/
def normalizeBy (e : Environment) (below : Below) : Below := fun s selections => do
  (← lift (e.fieldsOf selections)).mapM (e.completeField below s)

theorem normalize_eq (e : Environment) (s : Scope) (l : List Selection) :
    e.normalize s l = (e.normalizeBy e.normalize s l).run := by
  rw [normalize]
  rfl

/-- Normalizes selections that nest less than `depth` deep once their fragments are opened. -/
def normalizeTo (e : Environment) : (depth : Nat) → Below
  | 0 => fun _ _ => ExceptT.mk none
  | depth + 1 => e.normalizeBy (e.normalizeTo depth)

theorem completeField_extends {b b' : Below} (h : ∀ s l, Extends (b s l) (b' s l)) (s : Scope)
    (f : SelectedField) : Extends (e.completeField b s f) (e.completeField b' s f) := by
  refine (Extends.refl _).bind fun head => ?_
  cases head.below with
  | none => exact .refl _
  | some scope => exact (h _ _).bind fun _ => .refl _

theorem normalizeBy_extends {b b' : Below} (h : ∀ s l, Extends (b s l) (b' s l)) (s : Scope)
    (l : List Selection) : Extends (e.normalizeBy b s l) (e.normalizeBy b' s l) :=
  (Extends.refl _).bind fun _ => .mapM (completeField_extends h s) _

theorem normalizeTo_extends {m n : Nat} (h : m ≤ n) (s : Scope) (l : List Selection) :
    Extends (e.normalizeTo m s l) (e.normalizeTo n s l) := by
  induction m generalizing n s l with
  | zero => intro r hr; cases hr
  | succ m ih =>
    cases n with
    | zero => exact absurd h (Nat.not_succ_le_zero m)
    | succ n => exact normalizeBy_extends (ih (Nat.le_of_succ_le_succ h)) s l

theorem normalizeTo_extends_normalize (depth : Nat) (s : Scope) (l : List Selection) :
    Extends (e.normalizeTo depth s l) (e.normalize s l) := by
  induction depth generalizing s l with
  | zero => intro r hr; cases hr
  | succ depth ih =>
    rw [normalize_eq]
    exact normalizeBy_extends ih s l

theorem approximates_normalizeBy {b : Below}
    (hb : ∀ s l, Approximates (fun depth => e.normalizeTo depth s l) (b s l)) (s : Scope)
    (l : List Selection) :
    Approximates (fun depth => e.normalizeBy (e.normalizeTo depth) s l) (e.normalizeBy b s l) := by
  refine (Approximates.const _).bind fun fs => .mapM (fun f => ?_) fs
  refine (Approximates.const _).bind fun head => ?_
  cases head.below with
  | none => exact .const _
  | some scope => exact (hb _ _).bind fun _ => .const _

/-- What has a result has it at some depth. -/
theorem normalize_eq_some_iff {s : Scope} {l : List Selection}
    {r : Except RequestError (List ODataGraph.Selection)} :
    e.normalize s l = some r ↔ ∃ depth, (e.normalizeTo depth s l).run = some r := by
  constructor
  · refine normalize.partial_correctness e
      (fun s l r => ∃ depth, (e.normalizeTo depth s l).run = some r) ?_ s l r
    intro below ih s l r h
    have happrox := approximates_normalizeBy (e := e) (b := below)
      (fun s l => ⟨fun h => normalizeTo_extends h s l, ih s l⟩) s l
    obtain ⟨depth, hdepth⟩ := happrox.exists_of_run r h
    exact ⟨depth + 1, hdepth⟩
  · rintro ⟨depth, h⟩
    exact normalizeTo_extends_normalize depth s l r h

end Graphql.Environment

namespace Operation

open Graphql (SelectedField)
open Graphql.Environment (Below)
open Normalization (Extends)

variable {e : Engine} {o : OpenedOperation}

theorem completeField_extends {b b' : Below} (h : ∀ s l, Extends (b s l) (b' s l))
    (f : SelectedField) : Extends (completeField e o b f) (completeField e o b' f) := by
  refine (Extends.refl _).bind fun head => ?_
  cases head.below with
  | none => exact .refl _
  | some scope => exact (h _ _).bind fun _ => .refl _

theorem ofOpened_extends_ofRequest {request : RawRequest}
    (ho : OpenedOperation.ofRequest request = .ok o) (depth : Nat) :
    Extends (ofOpened e o (o.env.normalizeTo depth)) (ofRequest e request) := by
  have hfields := Extends.mapM (completeField_extends (e := e) (o := o)
    (o.env.normalizeTo_extends_normalize depth)) o.fields
  intro r hr
  rw [ofRequest, Normalization.run_lift_bind, ho]
  exact hfields.bind (fun _ => .refl _) r hr

end Operation

end ODataGraph
