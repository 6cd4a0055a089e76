import Mathlib.Data.List.FinRange
import ODataGraph.Proofs.Execution.FieldRun

/-!
The order in which fields are resolved cannot be observed. Every object and every list may have its
own order. What is resolved earlier changes nothing for what is resolved later, so that each order
comes to the same value with the same events, if in another order, or all of them fail.
-/

namespace ODataGraph

/-- In which order to carry out the tasks at each path, given their number. -/
def Schedule := Path → (n : Nat) → Equiv.Perm (Fin n)

def Schedule.inTurn : Schedule := fun _ _ => Equiv.refl _

namespace Resolver

/-- Carries out tasks in an order, and gives their values in the order of the tasks. -/
def inOrder (path : Path) (tasks : List Task) (order : Equiv.Perm (Fin tasks.length)) :
    Resolver (List Json) := do
  let values ← inTurn path (List.ofFn fun i => tasks[order i])
  return List.ofFn fun i : Fin tasks.length => values.getD (order.symm i) .null

def assembleBy (σ : Schedule) (build : List Json → Json) (tasks : List Task) (path : Path) :
    Resolver Json := do
  return build (← inOrder path tasks (σ path tasks.length))

end Resolver

namespace Outline

open Resolver (Task)

variable (σ : Schedule) (onEntity : Entity → Path → Resolver Json)

mutual

def resolveBy : Outline → Path → Resolver Json
  | .leaf v, _ => return v
  | .failed error _, _ => throw error
  | .entity e, path => onEntity e path
  | .list items, path => Resolver.assembleBy σ .array (itemTasksBy 0 items) path

def itemTasksBy : Nat → List Outline → List Task
  | _, [] => []
  | i, item :: rest => (.index i, resolveBy item) :: itemTasksBy (i + 1) rest

end

end Outline

namespace Execution

open Resolver (Task lift)

mutual

/-- The value of a field, with the fields and elements below it resolved as scheduled. -/
def resolveFieldBy (x : Execution) (σ : Schedule) (o : ObjectType) (parent : Parent) (path : Path) :
    Selection → Resolver Json
  | ⟨responseKey, name, arguments, condition, fields⟩ =>
    let onEntity (e : Entity) (path : Path) : Resolver Json := do
      let some o := x.registry.object? e.typeKey | throw (.missingObject e.typeName)
      Resolver.assembleBy σ (objectOf (keysOn (.entity e) fields))
        (fieldTasksBy x σ o (.entity e) fields) path
    Resolver.recover x.exposure path do
      let found ← x.lookUp o parent ⟨responseKey, name, arguments, condition, fields⟩ path
      (← lift (x.read path found)).resolveBy σ onEntity path

def fieldTasksBy (x : Execution) (σ : Schedule) (o : ObjectType) (parent : Parent) :
    List Selection → List Task
  | [] => []
  | s :: rest =>
    if parent.selects s then
      (.field s.responseKey, fun path => resolveFieldBy x σ o parent path s) ::
        fieldTasksBy x σ o parent rest
    else fieldTasksBy x σ o parent rest

end

variable (x : Execution) (σ : Schedule)

def resolveObjectBy (o : ObjectType) (parent : Parent) (fields : List Selection) (path : Path) :
    Resolver Json :=
  Resolver.assembleBy σ (objectOf (keysOn parent fields)) (x.fieldTasksBy σ o parent fields) path

def resolveEntityBy (fields : List Selection) (e : Entity) (path : Path) : Resolver Json := do
  let some o := x.registry.object? e.typeKey | throw (.missingObject e.typeName)
  x.resolveObjectBy σ o (.entity e) fields path

def resolveQueryRootBy (fields : List Selection) (path : Path) : Resolver Json := do
  x.preParse path x.service.label x.registry.queryRoot.name
  x.resolveObjectBy σ x.registry.queryRoot .root fields path

def resolveValueBy (type : TypeReference) (value : Json) (fields : List Selection) (path : Path) :
    Resolver Json :=
  Resolver.recover x.exposure path
    ((Outline.ofValue x.registry type value).resolveBy σ (x.resolveEntityBy σ fields) path)

end Execution

namespace Resolver

variable {α β : Type} {r r' r'' : Resolver α} {f f' : α → Resolver β}

/-- Two resolvers come to the same value with the same events, in some order, or both fail. -/
inductive Alike (r r' : Resolver α) : Prop
  | succeed {a : α} {events events' : Log} (h : r.Runs (.ok a) events)
      (h' : r'.Runs (.ok a) events') (hperm : events.Perm events')
  | fail {error error' : FieldError} {events events' : Log} (h : r.Runs (.error error) events)
      (h' : r'.Runs (.error error') events') (herror : error.isRecoverable = false)
      (herror' : error'.isRecoverable = false)

theorem Alike.symm (h : Alike r r') : Alike r' r := by
  cases h with
  | succeed h h' hperm => exact .succeed h' h hperm.symm
  | fail h h' herror herror' => exact .fail h' h herror' herror

theorem Alike.trans (h : Alike r r') (h' : Alike r' r'') : Alike r r'' := by
  cases h with
  | succeed hr hr' hperm =>
    cases h' with
    | succeed hs hs' hperm' =>
      obtain ⟨hvalue, rfl⟩ := hr'.unique hs
      cases hvalue
      exact .succeed hr hs' (hperm.trans hperm')
    | fail hs _ _ _ => cases (hr'.unique hs).1
  | fail hr hr' herror _ =>
    cases h' with
    | succeed hs _ _ => cases (hr'.unique hs).1
    | fail _ hs' _ herror' => exact .fail hr hs' herror herror'

theorem Alike.map (h : Alike r r') (g : α → β) :
    Alike (r >>= fun a => pure (g a)) (r' >>= fun a => pure (g a)) := by
  cases h with
  | succeed hr hr' hperm => exact .succeed (hr.map g) (hr'.map g) hperm
  | fail hr hr' herror herror' => exact .fail hr.bind_error hr'.bind_error herror herror'

theorem Alike.bind_of_runs {a : α} {events : Log} (h : r.Runs (.ok a) events)
    (hf : Alike (f a) (f' a)) : Alike (r >>= f) (r >>= f') := by
  cases hf with
  | succeed hs hs' hperm => exact .succeed (h.bind hs) (h.bind hs') (hperm.append_left events)
  | fail hs hs' herror herror' => exact .fail (h.bind hs) (h.bind hs') herror herror'

theorem Alike.recover {r r' : Resolver Json} (h : Alike r r') (exposure : Exposure) (path : Path) :
    Alike (recover exposure path r) (recover exposure path r') := by
  cases h with
  | succeed hr hr' hperm => exact .succeed hr.recover_ok hr'.recover_ok hperm
  | fail hr hr' herror herror' =>
    exact .fail (hr.recover_of_not_recoverable herror) (hr'.recover_of_not_recoverable herror')
      herror herror'

/-- The same error costs the same. -/
theorem alike_recover_error {r r' : Resolver Json} {error : FieldError} {events : Log}
    (h : r.Runs (.error error) events) (h' : r'.Runs (.error error) events) (exposure : Exposure)
    (path : Path) : Alike (recover exposure path r) (recover exposure path r') := by
  cases herror : error.isRecoverable with
  | true =>
    exact .succeed (h.recover_of_recoverable herror) (h'.recover_of_recoverable herror) (.refl _)
  | false =>
    exact .fail (h.recover_of_not_recoverable herror) (h'.recover_of_not_recoverable herror)
      herror herror

section Tasks

variable {path : Path} {tasks tasks' : List Task} {t : Task} {build : List Json → Json}

/-- Below a path a task comes to a value, with events. -/
def Does (path : Path) (t : Task) (result : Json × Log) : Prop :=
  (t.2 (path ++ [t.1])).Runs (.ok result.1) result.2

def Fails (path : Path) (t : Task) : Prop :=
  ∃ error events, (t.2 (path ++ [t.1])).Runs (.error error) events ∧ error.isRecoverable = false

theorem runs_inTurn {results : List (Json × Log)} (h : List.Forall₂ (Does path) tasks results) :
    (inTurn path tasks).Runs (.ok (results.map Prod.fst)) (results.flatMap Prod.snd) := by
  induction h with
  | nil => exact runs_pure []
  | cons ht _ ih => exact Runs.bind ht (ih.map (List.cons _))

theorem exists_inTurn_error (hsettles : ∀ t ∈ tasks, Fails path t ∨ ∃ result, Does path t result)
    (hfails : ∃ t ∈ tasks, Fails path t) : ∃ error events,
      (inTurn path tasks).Runs (.error error) events ∧ error.isRecoverable = false := by
  induction tasks with
  | nil =>
    obtain ⟨_, hmem, _⟩ := hfails
    cases hmem
  | cons t rest ih =>
    rcases hsettles t List.mem_cons_self with ⟨error, events, herror, hfatal⟩ | ⟨result, hresult⟩
    · exact ⟨error, events, herror.bind_error, hfatal⟩
    · obtain ⟨t', ht', error, events, herror, hfatal⟩ := hfails
      rcases List.mem_cons.1 ht' with rfl | hrest
      · cases (herror.unique hresult).1
      · have hfails : ∃ t ∈ rest, Fails path t := ⟨t', hrest, error, events, herror, hfatal⟩
        obtain ⟨error, events, herror, hfatal⟩ :=
          ih (fun t ht => hsettles t (List.mem_cons_of_mem _ ht)) hfails
        exact ⟨error, _, Runs.bind hresult herror.bind_error, hfatal⟩

/-- In any order tasks come to the same values. -/
theorem exists_runs_inOrder {results : List (Json × Log)}
    (h : List.Forall₂ (Does path) tasks results) (order : Equiv.Perm (Fin tasks.length)) :
    ∃ events, (inOrder path tasks order).Runs (.ok (results.map Prod.fst)) events ∧
      events.Perm (results.flatMap Prod.snd) := by
  have hlength : tasks.length = results.length := h.length_eq
  let result (i : Fin tasks.length) : Json × Log := results.get (i.cast hlength)
  have hresults : List.ofFn result = results := by
    apply List.ext_get
    · rw [List.length_ofFn, hlength]
    · intro n _ _
      simp [result]
  have hall : List.Forall₂ (Does path) (List.ofFn fun i => tasks[order i])
      (List.ofFn fun i => result (order i)) := by
    rw [List.forall₂_iff_get]
    constructor
    · rw [List.length_ofFn, List.length_ofFn]
    · intro n _ _
      simp only [List.get_ofFn]
      exact h.get _ _
  have hvalues : (List.ofFn fun i : Fin tasks.length =>
      ((List.ofFn fun i => result (order i)).map Prod.fst).getD (order.symm i) .null) =
        results.map Prod.fst := by
    rw [← hresults, List.map_ofFn, List.map_ofFn]
    apply congrArg List.ofFn
    funext i
    simp [List.getD_eq_getElem?_getD]
  refine ⟨(List.ofFn fun i => result (order i)).flatMap Prod.snd, ?_, ?_⟩
  · rw [← hvalues]
    exact (runs_inTurn hall).map _
  · have hperm := order.ofFn_comp_perm result
    rw [hresults] at hperm
    exact hperm.flatMap_right _

theorem exists_inOrder_error (order : Equiv.Perm (Fin tasks.length))
    (hsettles : ∀ t ∈ tasks, Fails path t ∨ ∃ result, Does path t result)
    (hfails : ∃ t ∈ tasks, Fails path t) : ∃ error events,
      (inOrder path tasks order).Runs (.error error) events ∧ error.isRecoverable = false := by
  have hmem : ∀ t, t ∈ List.ofFn (fun i => tasks[order i]) ↔ t ∈ tasks := by
    intro t
    rw [List.mem_ofFn, List.mem_iff_getElem]
    constructor
    · rintro ⟨i, rfl⟩
      exact ⟨order i, (order i).2, rfl⟩
    · rintro ⟨i, hi, rfl⟩
      exact ⟨order.symm ⟨i, hi⟩, by simp⟩
  obtain ⟨t, ht, hfail⟩ := hfails
  obtain ⟨error, events, herror, hfatal⟩ :=
    exists_inTurn_error (fun t ht => hsettles t ((hmem t).1 ht)) ⟨t, (hmem t).2 ht, hfail⟩
  exact ⟨error, events, herror.bind_error, hfatal⟩

/-- Tasks of the same place that come to the same. -/
structure AlikeTasks (t t' : Task) : Prop where
  segment : t.1 = t'.1
  alike : ∀ path, Alike (t.2 path) (t'.2 path)

/-- Either all tasks come to values, or some fail, on both sides. -/
theorem cases_alikeTasks (path : Path) (h : List.Forall₂ AlikeTasks tasks tasks') :
    (∃ results results', List.Forall₂ (Does path) tasks results ∧
      List.Forall₂ (Does path) tasks' results' ∧ results.map Prod.fst = results'.map Prod.fst ∧
      (results.flatMap Prod.snd).Perm (results'.flatMap Prod.snd)) ∨
    (∃ t ∈ tasks, Fails path t) ∧ ∃ t ∈ tasks', Fails path t := by
  induction h with
  | nil => exact .inl ⟨[], [], .nil, .nil, rfl, .nil⟩
  | @cons t t' rest rest' ht _ ih =>
    obtain ⟨segment, r⟩ := t
    obtain ⟨segment', r'⟩ := t'
    obtain rfl : segment = segment' := ht.segment
    cases ht.alike (path ++ [segment]) with
    | @succeed v events events' hr hr' hperm =>
      rcases ih with ⟨results, results', hall, hall', hvalues, hevents⟩ | ⟨hfails, hfails'⟩
      · apply Or.inl
        exact ⟨(v, events) :: results, (v, events') :: results', .cons hr hall, .cons hr' hall',
          congrArg (v :: ·) hvalues, hperm.append hevents⟩
      · obtain ⟨t, hmem, hfail⟩ := hfails
        obtain ⟨t', hmem', hfail'⟩ := hfails'
        apply Or.inr
        exact ⟨⟨t, List.mem_cons_of_mem _ hmem, hfail⟩, t', List.mem_cons_of_mem _ hmem', hfail'⟩
    | fail hr hr' herror herror' =>
      have hfail : Fails path (segment, r) := ⟨_, _, hr, herror⟩
      have hfail' : Fails path (segment, r') := ⟨_, _, hr', herror'⟩
      exact .inr ⟨⟨_, List.mem_cons_self, hfail⟩, _, List.mem_cons_self, hfail'⟩

theorem settles_of_alikeTasks (path : Path) (h : List.Forall₂ AlikeTasks tasks tasks') :
    ∀ t ∈ tasks, Fails path t ∨ ∃ result, Does path t result := by
  induction h with
  | nil => exact nofun
  | @cons t t' _ _ ht _ ih =>
    intro u hu
    rcases List.mem_cons.1 hu with rfl | hu
    · cases ht.alike (path ++ [u.1]) with
      | @succeed v events _ hr _ _ => exact .inr ⟨(v, events), hr⟩
      | fail hr _ herror _ => exact .inl ⟨_, _, hr, herror⟩
    · exact ih u hu

theorem AlikeTasks.symm {t t' : Task} (h : AlikeTasks t t') : AlikeTasks t' t :=
  ⟨h.segment.symm, fun path => (h.alike path).symm⟩

/-- Tasks that are alike one by one are alike in any two orders. -/
theorem alike_inOrder (h : List.Forall₂ AlikeTasks tasks tasks') (path : Path)
    (order : Equiv.Perm (Fin tasks.length)) (order' : Equiv.Perm (Fin tasks'.length)) :
    Alike (inOrder path tasks order) (inOrder path tasks' order') := by
  rcases cases_alikeTasks path h with
    ⟨results, results', hall, hall', hvalues, hevents⟩ | ⟨hfails, hfails'⟩
  · obtain ⟨events, hruns, hperm⟩ := exists_runs_inOrder hall order
    obtain ⟨events', hruns', hperm'⟩ := exists_runs_inOrder hall' order'
    rw [← hvalues] at hruns'
    exact .succeed hruns hruns' (hperm.trans (hevents.trans hperm'.symm))
  · have hflip : List.Forall₂ AlikeTasks tasks' tasks := (h.imp fun _ _ => AlikeTasks.symm).flip
    obtain ⟨error, events, hruns, hfatal⟩ :=
      exists_inOrder_error order (settles_of_alikeTasks path h) hfails
    obtain ⟨error', events', hruns', hfatal'⟩ :=
      exists_inOrder_error order' (settles_of_alikeTasks path hflip) hfails'
    exact .fail hruns hruns' hfatal hfatal'

theorem alike_assembleBy (h : List.Forall₂ AlikeTasks tasks tasks') (σ τ : Schedule)
    (build : List Json → Json) (path : Path) :
    Alike (assembleBy σ build tasks path) (assembleBy τ build tasks' path) :=
  (alike_inOrder h path _ _).map build

/-- What is put together from tasks fails iff one of them does. -/
theorem assembleBy_fails_iff (h : List.Forall₂ AlikeTasks tasks tasks) (σ : Schedule)
    (build : List Json → Json) (path : Path) :
    (∃ error, (assembleBy σ build tasks path).Gives (.error error)) ↔
      ∃ t ∈ tasks, Fails path t := by
  constructor
  · rintro ⟨error, log, log', hgives⟩
    rcases cases_alikeTasks path h with ⟨results, _, hall, _⟩ | ⟨hfails, _⟩
    · obtain ⟨events, hruns, _⟩ := exists_runs_inOrder hall (σ path tasks.length)
      have hbuilt : (assembleBy σ build tasks path).Runs _ _ := hruns.map build
      rw [hbuilt log] at hgives
      cases hgives
    · exact hfails
  · intro hfails
    obtain ⟨error, events, hruns, _⟩ :=
      exists_inOrder_error (σ path tasks.length) (settles_of_alikeTasks path h) hfails
    exact ⟨error, hruns.bind_error.gives⟩

theorem length_of_inTurn {values : List Json} (h : (inTurn path tasks).Gives (.ok values)) :
    values.length = tasks.length := by
  induction tasks generalizing values with
  | nil =>
    rw [inTurn, gives_pure] at h
    cases h
    rfl
  | cons t rest ih =>
    obtain ⟨v, _, h⟩ := gives_bind_ok h
    obtain ⟨others, hothers, h⟩ := gives_bind_ok h
    rw [gives_pure] at h
    cases h
    rw [List.length_cons, List.length_cons, ih hothers]

theorem bind_pure_of_gives {r : Resolver α} {g : α → α} (h : ∀ a, r.Gives (.ok a) → g a = a) :
    (r >>= fun a => pure (g a)) = r := by
  funext log
  have hrun := run_bind r (fun a => pure (g a)) log
  rcases hr : r.run.run log with ⟨error | a, log'⟩
  · rw [hr] at hrun
    exact hrun.trans hr.symm
  · rw [hr] at hrun
    dsimp only at hrun
    rw [h a ⟨log, log', hr⟩] at hrun
    exact hrun.trans hr.symm

/-- Without a change of their order tasks are carried out in turn. -/
theorem inOrder_refl (path : Path) (tasks : List Task) :
    inOrder path tasks (Equiv.refl _) = inTurn path tasks := by
  have htasks : (List.ofFn fun i : Fin tasks.length => tasks[Equiv.refl _ i]) = tasks :=
    List.ofFn_getElem
  rw [inOrder, htasks]
  apply bind_pure_of_gives
  intro values hvalues
  have hlength := length_of_inTurn hvalues
  apply List.ext_getElem
  · rw [List.length_ofFn, hlength]
  · intro n h h'
    simp [List.getD_eq_getElem?_getD, h']

theorem assembleBy_inTurn (build : List Json → Json) (tasks : List Task) (path : Path) :
    assembleBy .inTurn build tasks path = assemble build tasks path := by
  rw [assembleBy, Schedule.inTurn, inOrder_refl, assemble]

end Tasks

end Resolver

namespace Outline

open Resolver (Task Alike AlikeTasks)

variable {σ τ : Schedule} {onEntity onEntity' : Entity → Path → Resolver Json}

theorem itemTasksBy_eq (start : Nat) (items : List Outline) :
    itemTasksBy σ onEntity start items = (items.zipIdx start).map fun (item, i) =>
      (.index i, item.resolveBy σ onEntity) := by
  induction items generalizing start with
  | nil => rfl
  | cons item rest ih => rw [itemTasksBy, ih, List.zipIdx_cons, List.map_cons]

theorem mem_of_mem_zipIdx {item : Outline × Nat} {items : List Outline}
    (h : item ∈ items.zipIdx) : item.1 ∈ items :=
  List.mem_of_getElem? (List.mk_mem_zipIdx_iff_getElem?.1 h)

/-- Objects that are alike make values with them alike. -/
theorem alike_resolveBy (hentity : ∀ e path, Alike (onEntity e path) (onEntity' e path))
    (outline : Outline) (path : Path) :
    Alike (outline.resolveBy σ onEntity path) (outline.resolveBy τ onEntity' path) := by
  induction outline using induction_items generalizing path with
  | leaf v =>
    rw [resolveBy, resolveBy]
    exact .succeed (Resolver.runs_pure v) (Resolver.runs_pure v) .nil
  | failed error fatal =>
    simp only [resolveBy]
    exact .fail (Resolver.runs_throw error) (Resolver.runs_throw error) fatal fatal
  | entity e =>
    rw [resolveBy, resolveBy]
    exact hentity e path
  | list items ih =>
    rw [resolveBy, resolveBy]
    apply Resolver.alike_assembleBy
    rw [itemTasksBy_eq, itemTasksBy_eq, List.forall₂_map_left_iff, List.forall₂_map_right_iff,
      List.forall₂_same]
    intro item hitem
    exact ⟨rfl, ih item.1 (mem_of_mem_zipIdx hitem)⟩

theorem resolveBy_inTurn (h : onEntity = onEntity') (outline : Outline) (path : Path) :
    outline.resolveBy .inTurn onEntity path = outline.resolve onEntity' path := by
  induction outline using induction_items generalizing path with
  | leaf v => rw [resolveBy, resolve]
  | failed error fatal => simp only [resolveBy, resolve]
  | entity e => rw [resolveBy, resolve, h]
  | list items ih =>
    rw [resolveBy, Resolver.assembleBy_inTurn, itemTasksBy_eq, resolve_list]
    congr 1
    apply List.map_congr_left
    intro item hitem
    rw [itemTask, Prod.mk.injEq]
    exact ⟨rfl, funext (ih item.1 (mem_of_mem_zipIdx hitem))⟩

end Outline

namespace Execution

open Resolver (Task Alike AlikeTasks lift)

variable {x : Execution} {σ τ : Schedule} {o : ObjectType} {parent : Parent} {path : Path}
variable {s : Selection} {fields : List Selection}

theorem resolveFieldBy_eq (x : Execution) (σ : Schedule) (o : ObjectType) (parent : Parent)
    (path : Path) (s : Selection) : x.resolveFieldBy σ o parent path s =
      Resolver.recover x.exposure path (x.lookUp o parent s path >>= fun found =>
        lift (x.read path found) >>= fun outline =>
          outline.resolveBy σ (x.resolveEntityBy σ s.fields) path) := by
  cases s
  rw [resolveFieldBy]
  rfl

theorem fieldTasksBy_eq (x : Execution) (σ : Schedule) (o : ObjectType) (parent : Parent)
    (fields : List Selection) : x.fieldTasksBy σ o parent fields =
      (fields.filter parent.selects).map fun s =>
        (.field s.responseKey, fun path => x.resolveFieldBy σ o parent path s) := by
  induction fields with
  | nil => rfl
  | cons s rest ih =>
    rw [fieldTasksBy]
    split
    · rename_i hs
      rw [ih, List.filter_cons_of_pos hs, List.map_cons]
    · rename_i hs
      rw [ih, List.filter_cons_of_neg hs]

/-- A field is looked up and its answer read before any order matters. -/
theorem alike_resolveFieldBy_of (hentity : ∀ e path, Alike (x.resolveEntityBy σ s.fields e path)
    (x.resolveEntityBy τ s.fields e path)) (o : ObjectType) (parent : Parent) (path : Path) :
    Alike (x.resolveFieldBy σ o parent path s) (x.resolveFieldBy τ o parent path s) := by
  rw [resolveFieldBy_eq, resolveFieldBy_eq]
  obtain ⟨outcome, asked, hasked⟩ := appends_lookUp x o parent s path
  cases outcome with
  | error error => exact Resolver.alike_recover_error hasked.bind_error hasked.bind_error _ path
  | ok found =>
    cases hread : x.read path found with
    | error error =>
      have hruns : ∀ f : Outline → Resolver Json, (lift (x.read path found) >>= f).Runs
          (.error error) [] := by
        intro f
        rw [hread]
        exact (Resolver.runs_lift _).bind_error
      exact Resolver.alike_recover_error (hasked.bind (hruns _)) (hasked.bind (hruns _)) _ path
    | ok outline =>
      apply Alike.recover
      apply Alike.bind_of_runs hasked
      rw [hread, Resolver.lift_ok, pure_bind, pure_bind]
      exact outline.alike_resolveBy hentity path

theorem alike_fieldTasksBy (h : ∀ s ∈ fields, ∀ path, Alike (x.resolveFieldBy σ o parent path s)
    (x.resolveFieldBy τ o parent path s)) :
    List.Forall₂ AlikeTasks (x.fieldTasksBy σ o parent fields)
      (x.fieldTasksBy τ o parent fields) := by
  rw [fieldTasksBy_eq, fieldTasksBy_eq, List.forall₂_map_left_iff, List.forall₂_map_right_iff,
    List.forall₂_same]
  intro s hs
  exact ⟨rfl, h s (List.mem_of_mem_filter hs)⟩

theorem alike_resolveEntityBy_of (h : ∀ s ∈ fields, ∀ o parent path,
    Alike (x.resolveFieldBy σ o parent path s) (x.resolveFieldBy τ o parent path s)) (e : Entity)
    (path : Path) :
    Alike (x.resolveEntityBy σ fields e path) (x.resolveEntityBy τ fields e path) := by
  rw [resolveEntityBy, resolveEntityBy]
  cases x.registry.object? e.typeKey with
  | none => exact .fail (Resolver.runs_throw _) (Resolver.runs_throw _) rfl rfl
  | some o =>
    exact Resolver.alike_assembleBy (alike_fieldTasksBy fun s hs => h s hs o _) σ τ _ path

theorem alike_resolveFieldBy (x : Execution) (σ τ : Schedule) (s : Selection) :
    ∀ o parent path, Alike (x.resolveFieldBy σ o parent path s)
      (x.resolveFieldBy τ o parent path s) := by
  induction s using Selection.induction_below with
  | h s ih => exact alike_resolveFieldBy_of (alike_resolveEntityBy_of ih)

theorem alike_resolveObjectBy (x : Execution) (σ τ : Schedule) (o : ObjectType) (parent : Parent)
    (fields : List Selection) (path : Path) :
    Alike (x.resolveObjectBy σ o parent fields path) (x.resolveObjectBy τ o parent fields path) :=
  Resolver.alike_assembleBy (alike_fieldTasksBy fun s _ => alike_resolveFieldBy x σ τ s o parent)
    σ τ _ path

theorem alike_resolveQueryRootBy (x : Execution) (σ τ : Schedule) (fields : List Selection)
    (path : Path) :
    Alike (x.resolveQueryRootBy σ fields path) (x.resolveQueryRootBy τ fields path) := by
  obtain ⟨outcome, parses, hparses⟩ := appends_preParse x path x.service.label
    x.registry.queryRoot.name
  cases outcome with
  | error error =>
    have hfatal := (parse_of_preParse hparses).2 error rfl
    exact .fail hparses.bind_error hparses.bind_error hfatal hfatal
  | ok a =>
    exact .bind_of_runs hparses (alike_resolveObjectBy x σ τ x.registry.queryRoot .root fields path)

theorem alike_resolveValueBy (x : Execution) (σ τ : Schedule) (type : TypeReference) (value : Json)
    (fields : List Selection) (path : Path) :
    Alike (x.resolveValueBy σ type value fields path)
      (x.resolveValueBy τ type value fields path) := by
  apply Alike.recover
  apply Outline.alike_resolveBy
  exact alike_resolveEntityBy_of fun s _ => alike_resolveFieldBy x σ τ s

theorem fieldTasksBy_inTurn_of
    (h : ∀ s ∈ fields, ∀ path, x.resolveFieldBy .inTurn o parent path s =
      x.resolveField o parent path s) :
    x.fieldTasksBy .inTurn o parent fields = x.fieldTasks o parent fields := by
  rw [fieldTasksBy_eq, fieldTasks]
  apply List.map_congr_left
  intro s hs
  rw [Prod.mk.injEq]
  exact ⟨rfl, funext (h s (List.mem_of_mem_filter hs))⟩

theorem resolveObjectBy_inTurn_of
    (h : ∀ s ∈ fields, ∀ path, x.resolveFieldBy .inTurn o parent path s =
      x.resolveField o parent path s) (path : Path) :
    x.resolveObjectBy .inTurn o parent fields path = x.resolveObject o parent fields path := by
  rw [resolveObjectBy, Resolver.assembleBy_inTurn, fieldTasksBy_inTurn_of h, resolveObject_eq]

theorem resolveEntityBy_inTurn_of
    (h : ∀ s ∈ fields, ∀ o parent path, x.resolveFieldBy .inTurn o parent path s =
      x.resolveField o parent path s) :
    x.resolveEntityBy .inTurn fields = x.resolveEntity fields := by
  funext e path
  rw [resolveEntityBy, resolveEntity]
  cases x.registry.object? e.typeKey with
  | none => rfl
  | some o => exact resolveObjectBy_inTurn_of (fun s hs => h s hs o (.entity e)) path

/-- The program resolves one field after the other. -/
theorem resolveFieldBy_inTurn (s : Selection) : ∀ o parent path,
    x.resolveFieldBy .inTurn o parent path s = x.resolveField o parent path s := by
  induction s using Selection.induction_below with
  | h s ih =>
    intro o parent path
    rw [resolveFieldBy_eq, resolveField_eq, fieldValue_eq_steps]
    have hentity := resolveEntityBy_inTurn_of ih
    congr 1
    congr 1
    funext found
    congr 1
    funext outline
    exact outline.resolveBy_inTurn hentity path

theorem resolveObjectBy_inTurn (x : Execution) (o : ObjectType) (parent : Parent)
    (fields : List Selection) (path : Path) :
    x.resolveObjectBy .inTurn o parent fields path = x.resolveObject o parent fields path :=
  resolveObjectBy_inTurn_of (fun s _ => resolveFieldBy_inTurn s o parent) path

/-- An object fails iff one of its fields does, whatever comes before it. -/
theorem resolveObjectBy_fails_iff :
    (∃ error, (x.resolveObjectBy σ o parent fields path).Gives (.error error)) ↔
      ∃ s ∈ fields, parent.selects s = true ∧ ∃ error,
        (x.resolveFieldBy σ o parent (path ++ [.field s.responseKey]) s).Gives (.error error) := by
  have hsame := fun (s : Selection) (_ : s ∈ fields) => alike_resolveFieldBy x σ σ s o parent
  rw [resolveObjectBy, Resolver.assembleBy_fails_iff (alike_fieldTasksBy hsame), fieldTasksBy_eq]
  constructor
  · rintro ⟨t, ht, error, events, hruns, _⟩
    obtain ⟨s, hs, rfl⟩ := List.mem_map.1 ht
    obtain ⟨hmem, hselects⟩ := List.mem_filter.1 hs
    exact ⟨s, hmem, hselects, error, hruns.gives⟩
  · rintro ⟨s, hmem, hselects, error, log, log', hgives⟩
    refine ⟨_, List.mem_map_of_mem (List.mem_filter.2 ⟨hmem, hselects⟩), ?_⟩
    cases hsame s hmem (path ++ [.field s.responseKey]) with
    | succeed h _ _ =>
      rw [h log] at hgives
      cases hgives
    | fail h _ herror _ => exact ⟨_, _, h, herror⟩

end Execution

/-- In every order a resolver comes to the same value with the same events, of which the errors are
listed for the caller, or it fails in every order. The program's own order is one of them. -/
structure Resolver.Unobservable (resolver : Schedule → Resolver Json) (program : Resolver Json) :
    Prop where
  in_turn : resolver .inTurn = program
  ends : ∀ σ, (resolver σ).Appends
  succeeds : ∀ σ v events, (resolver σ).Runs (.ok v) events → ∀ τ, ∃ events',
    (resolver τ).Runs (.ok v) events' ∧ events.Perm events' ∧ events.errors.Perm events'.errors
  fails : ∀ σ error, (resolver σ).Gives (.error error) → ∀ τ, ∃ error',
    (resolver τ).Gives (.error error') ∧ error'.isRecoverable = false

theorem Resolver.unobservable_of_alike {resolver : Schedule → Resolver Json}
    {program : Resolver Json} (hprogram : resolver .inTurn = program)
    (halike : ∀ σ τ, Alike (resolver σ) (resolver τ)) : Unobservable resolver program := by
  constructor
  case in_turn => exact hprogram
  case ends =>
    intro σ
    cases halike σ σ with
    | succeed h _ _ => exact ⟨_, _, h⟩
    | fail h _ _ _ => exact ⟨_, _, h⟩
  case succeeds =>
    intro σ v events hruns τ
    cases halike σ τ with
    | succeed h h' hperm =>
      obtain ⟨hvalue, rfl⟩ := hruns.unique h
      cases hvalue
      exact ⟨_, h', hperm, hperm.filterMap _⟩
    | fail h _ _ _ => cases (hruns.unique h).1
  case fails =>
    rintro σ error ⟨log, log', hgives⟩ τ
    cases halike σ τ with
    | succeed h _ _ =>
      rw [h log] at hgives
      cases hgives
    | fail _ h' _ herror' => exact ⟨_, h'.gives, herror'⟩

/-- The order in which the fields of objects and the elements of lists are resolved cannot be
observed, on any object, at the root of a service, or in a value that the host has. -/
theorem Execution.order_unobservable (x : Execution) (fields : List Selection) (path : Path) :
    (∀ o parent, Resolver.Unobservable (x.resolveObjectBy · o parent fields path)
      (x.resolveObject o parent fields path)) ∧
    (∀ σ o parent, (∃ error, (x.resolveObjectBy σ o parent fields path).Gives (.error error)) ↔
      ∃ s ∈ fields, parent.selects s = true ∧ ∃ error,
        (x.resolveFieldBy σ o parent (path ++ [.field s.responseKey]) s).Gives (.error error)) ∧
    Resolver.Unobservable (x.resolveQueryRootBy · fields path) (x.resolveQueryRoot fields path) ∧
    ∀ type value, Resolver.Unobservable (x.resolveValueBy · type value fields path)
      (x.resolveValue type value fields path) := by
  refine ⟨?_, fun _ _ _ => resolveObjectBy_fails_iff, ?_, ?_⟩
  · intro o parent
    exact Resolver.unobservable_of_alike (resolveObjectBy_inTurn x o parent fields path)
      fun σ τ => alike_resolveObjectBy x σ τ o parent fields path
  · apply Resolver.unobservable_of_alike
    · rw [resolveQueryRootBy, resolveQueryRoot, resolveObjectBy_inTurn]
    · exact fun σ τ => alike_resolveQueryRootBy x σ τ fields path
  · intro type value
    apply Resolver.unobservable_of_alike
    · rw [resolveValueBy, resolveValue, Outline.completeValue_eq]
      congr 1
      exact Outline.resolveBy_inTurn
        (resolveEntityBy_inTurn_of fun s _ => resolveFieldBy_inTurn s) _ path
    · exact fun σ τ => alike_resolveValueBy x σ τ type value fields path

end ODataGraph
