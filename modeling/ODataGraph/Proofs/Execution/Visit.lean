import ODataGraph.Proofs.Execution.FieldRun
import ODataGraph.Proofs.Reachability

/-!
The fields that come to be resolved in a run, each with what was logged until then. The turn of a
field comes when what stands before it on the same object, and before its object in the same list,
has been resolved. What is logged while it is resolved stays in the log of the run.
-/

namespace ODataGraph

open Relation (ReflTransGen)

namespace Resolver

variable {path : Path} {tasks : List Task} {first : Log}

/-- What is logged by so many tasks in turn, all of which come to a value. -/
def Before (path : Path) (tasks : List Task) (i : Nat) (first : Log) : Prop :=
  ∃ values, (inTurn path (tasks.take i)).Runs (.ok values) first

theorem before_zero : Before path tasks 0 [] := ⟨[], runs_pure []⟩

theorem Before.eq_nil (h : Before path tasks 0 first) : first = [] := by
  obtain ⟨values, h⟩ := h
  exact (runs_pure_iff.1 h).2

theorem Before.succ {t : Task} {i : Nat} {v : Json} {events : Log}
    (hv : (t.2 (path ++ [t.1])).Runs (.ok v) events) (h : Before path tasks i first) :
    Before path (t :: tasks) (i + 1) (events ++ first) := by
  obtain ⟨values, h⟩ := h
  exact ⟨v :: values, hv.bind (h.map (v :: ·))⟩

theorem Before.cases_succ {t : Task} {i : Nat}
    (happends : ∀ t' ∈ t :: tasks, ∀ path, (t'.2 path).Appends)
    (h : Before path (t :: tasks) (i + 1) first) :
    ∃ v events more, (t.2 (path ++ [t.1])).Runs (.ok v) events ∧ Before path tasks i more ∧
      first = events ++ more := by
  obtain ⟨values, h⟩ := h
  have htake : ∀ t' ∈ t :: tasks.take i, ∀ path, (t'.2 path).Appends := by
    intro t' ht'
    rcases List.mem_cons.1 ht' with rfl | ht'
    · exact happends t' List.mem_cons_self
    · exact happends t' (List.mem_cons_of_mem _ (List.mem_of_mem_take ht'))
  rw [List.take_succ_cons] at h
  rcases h.cases_inTurn htake with
    ⟨error, _, hends⟩ | ⟨v, outcome, events, more, hv, hmore, hends, rfl⟩
  · cases hends
  · cases outcome with
    | error error => cases hends
    | ok values' => exact ⟨v, events, more, hv, ⟨values', hmore⟩, rfl⟩

/-- What a task logs comes right after what the tasks before it log. -/
theorem Before.append_prefix {outcome : Except FieldError (List Json)} {events : Log} {i : Nat}
    {t : Task} {outcome' : Except FieldError Json} {during : Log}
    (hbefore : Before path tasks i first)
    (happends : ∀ t ∈ tasks, ∀ path, (t.2 path).Appends)
    (h : (inTurn path tasks).Runs outcome events) (ht : tasks[i]? = some t)
    (hduring : (t.2 (path ++ [t.1])).Runs outcome' during) : first ++ during <+: events := by
  induction tasks generalizing i first outcome events with
  | nil => cases ht
  | cons t' rest ih =>
    rcases h.cases_inTurn happends with
      ⟨error, hfails, rfl⟩ | ⟨v, outcome, events, more, hv, hmore, rfl, rfl⟩
    · cases i with
      | zero =>
        obtain rfl := Option.some.inj ht
        rw [hbefore.eq_nil, List.nil_append, (hduring.unique hfails).2]
      | succ i =>
        obtain ⟨v, _, _, hv, _, _⟩ := hbefore.cases_succ happends
        cases (hfails.unique hv).1
    · cases i with
      | zero =>
        obtain rfl := Option.some.inj ht
        rw [hbefore.eq_nil, List.nil_append, (hduring.unique hv).2]
        exact List.prefix_append _ _
      | succ i =>
        obtain ⟨_, _, more', hv', hrest, rfl⟩ := hbefore.cases_succ happends
        obtain ⟨_, rfl⟩ := hv'.unique hv
        rw [List.append_assoc]
        have hlater := ih hrest (fun t ht => happends t (List.mem_cons_of_mem _ ht)) hmore ht
        exact (List.prefix_append_right_inj _).2 hlater

/-- Every event of tasks that are carried out in turn is one of a task whose turn comes. -/
theorem exists_before_of_event (happends : ∀ t ∈ tasks, ∀ path, (t.2 path).Appends)
    {outcome : Except FieldError (List Json)} {events : Log} {event : Event}
    (h : (inTurn path tasks).Runs outcome events) (hevent : event ∈ events) :
    ∃ i t first, tasks[i]? = some t ∧ Before path tasks i first ∧
      ∃ outcome during, (t.2 (path ++ [t.1])).Runs outcome during ∧ event ∈ during := by
  induction tasks generalizing outcome events with
  | nil =>
    obtain ⟨_, rfl⟩ := runs_pure_iff.1 h
    cases hevent
  | cons t rest ih =>
    rcases h.cases_inTurn happends with
      ⟨error, hfails, rfl⟩ | ⟨v, outcome, events, more, hv, hmore, rfl, rfl⟩
    · exact ⟨0, t, [], rfl, before_zero, _, _, hfails, hevent⟩
    rcases List.mem_append.1 hevent with hevent | hevent
    · exact ⟨0, t, [], rfl, before_zero, _, _, hv, hevent⟩
    · obtain ⟨i, t', first, ht', hbefore, hfound⟩ :=
        ih (fun t ht => happends t (List.mem_cons_of_mem _ ht)) hmore hevent
      exact ⟨i + 1, t', events ++ first, ht', hbefore.succ hv, hfound⟩

end Resolver

namespace Outline

variable {onEntity : Entity → Path → Resolver Json} {outline : Outline} {path position : Path}
variable {e : Entity} {first : Log}

/-- An object that is still to be resolved, with its path. -/
inductive Holds : Outline → Path → Entity → Path → Prop
  | entity (e : Entity) (path : Path) : Holds (.entity e) path e path
  | item {items : List Outline} {i : Nat} {item : Outline} {path position : Path} {e : Entity}
      (hi : items[i]? = some item) (h : Holds item (path ++ [.index i]) e position) :
      Holds (.list items) path e position

/-- An object that comes to be resolved, with its path and what is logged until then. -/
inductive Reaches (onEntity : Entity → Path → Resolver Json) :
    Outline → Path → Entity → Path → Log → Prop
  | entity (e : Entity) (path : Path) : Reaches onEntity (.entity e) path e path []
  | item {items : List Outline} {i : Nat} {item : Outline} {path position : Path} {e : Entity}
      {first rest : Log} (hi : items[i]? = some item)
      (hbefore : Resolver.Before path (items.zipIdx.map (itemTask onEntity)) i first)
      (h : Reaches onEntity item (path ++ [.index i]) e position rest) :
      Reaches onEntity (.list items) path e position (first ++ rest)

theorem appends_itemTasks (hentity : ∀ e path, (onEntity e path).Appends) (items : List Outline) :
    ∀ t ∈ items.zipIdx.map (itemTask onEntity), ∀ path, (t.2 path).Appends := by
  intro t ht path
  obtain ⟨⟨item, i⟩, _, rfl⟩ := List.mem_map.1 ht
  exact item.appends_resolve hentity path

theorem Reaches.holds (h : Reaches onEntity outline path e position first) :
    outline.Holds path e position := by
  induction h with
  | entity e path => exact .entity e path
  | item hi _ _ ih => exact .item hi ih

theorem Reaches.append_prefix (hentity : ∀ e path, (onEntity e path).Appends)
    {outcome outcome' : Except FieldError Json} {events during : Log}
    (hreaches : Reaches onEntity outline path e position first)
    (h : (outline.resolve onEntity path).Runs outcome events)
    (hduring : (onEntity e position).Runs outcome' during) : first ++ during <+: events := by
  induction hreaches generalizing outcome events with
  | entity e path =>
    rw [resolve_entity] at h
    rw [List.nil_append, (hduring.unique h).2]
  | @item items i item path position e first rest hi hbefore _ ih =>
    have happends := appends_itemTasks hentity items
    have ht : (items.zipIdx.map (itemTask onEntity))[i]? = some (itemTask onEntity (item, i)) := by
      rw [List.getElem?_map, List.getElem?_zipIdx, hi, Nat.zero_add]
      rfl
    rw [resolve_list] at h
    obtain ⟨_, hruns, _⟩ := h.of_assemble happends
    obtain ⟨outcome, events', hitem⟩ := item.appends_resolve hentity (path ++ [.index i])
    have hitems : first ++ events' <+: events := hbefore.append_prefix happends hruns ht hitem
    rw [List.append_assoc]
    exact ((List.prefix_append_right_inj first).2 (ih hitem hduring)).trans hitems

/-- Every event of an outline is one of an object in it whose turn comes. -/
theorem exists_reaches_of_event (hentity : ∀ e path, (onEntity e path).Appends)
    {outcome : Except FieldError Json} {events : Log} {event : Event}
    (h : (outline.resolve onEntity path).Runs outcome events) (hevent : event ∈ events) :
    ∃ e position first, Reaches onEntity outline path e position first ∧
      ∃ outcome during, (onEntity e position).Runs outcome during ∧ event ∈ during := by
  induction outline using induction_items generalizing path outcome events with
  | leaf v =>
    rw [resolve_leaf] at h
    obtain ⟨_, rfl⟩ := Resolver.runs_pure_iff.1 h
    cases hevent
  | failed error fatal =>
    rw [resolve_failed] at h
    obtain ⟨_, rfl⟩ := Resolver.runs_throw_iff.1 h
    cases hevent
  | entity e =>
    rw [resolve_entity] at h
    exact ⟨e, path, [], .entity e path, outcome, events, h, hevent⟩
  | list items ih =>
    have happends := appends_itemTasks hentity items
    rw [resolve_list] at h
    obtain ⟨_, hruns, _⟩ := h.of_assemble happends
    obtain ⟨i, t, first, ht, hbefore, _, _, hruns, hevent⟩ :=
      Resolver.exists_before_of_event happends hruns hevent
    rw [List.getElem?_map, Option.map_eq_some_iff] at ht
    obtain ⟨⟨item, j⟩, hitem, rfl⟩ := ht
    rw [List.getElem?_zipIdx, Option.map_eq_some_iff] at hitem
    obtain ⟨item', hi, heq⟩ := hitem
    obtain ⟨rfl, rfl⟩ := Prod.mk.inj heq
    rw [Nat.zero_add] at hruns
    obtain ⟨e, position, rest, hreaches, hfound⟩ := ih item' (List.mem_of_getElem? hi) hruns hevent
    exact ⟨e, position, first ++ rest, .item hi hbefore hreaches, hfound⟩

end Outline

/-- A selection that is resolved on an object, when so much has been logged. -/
structure Visit where
  object : ObjectType
  parent : Parent
  path : Path
  selection : Selection
  before : Log

namespace Visit

def resolve (x : Execution) (v : Visit) : Resolver Json :=
  x.resolveField v.object v.parent v.path v.selection

/-- What it comes to. -/
def outcome (x : Execution) (v : Visit) : Except FieldError Json :=
  ((v.resolve x).run.run v.before).1

/-- What is logged when it has been resolved. -/
def after (x : Execution) (v : Visit) : Log := ((v.resolve x).run.run v.before).2

theorem exists_runs (x : Execution) (v : Visit) :
    ∃ events, (v.resolve x).Runs (v.outcome x) events ∧ v.after x = v.before ++ events := by
  obtain ⟨outcome, events, h⟩ := Execution.appends_resolveField v.selection v.object v.parent v.path
  have hrun : (v.resolve x).run.run v.before = (outcome, v.before ++ events) := h v.before
  refine ⟨events, ?_, ?_⟩
  · rw [Visit.outcome, hrun]
    exact h
  · rw [after, hrun]

/-- What is logged for the field itself, and not for those on the objects in its value. -/
inductive Logs (x : Execution) (v : Visit) (event : Event) : Prop
  | asked {outcome : Except FieldError Found} {asked : Log}
      (h : (x.lookUp v.object v.parent v.selection v.path).Runs outcome asked)
      (hevent : event ∈ asked)
  | refused (error : FieldError)
      (hevent : event = .fail (error.toGraphQL x.exposure (some v.path)))

end Visit

namespace Execution

variable {x : Execution} {v w : Visit} {fields : List Selection} {path : Path}

/-- From a field to one on an object in its value. -/
inductive Leads (x : Execution) (v : Visit) : Visit → Prop
  | field {found : Found} {outline : Outline} {e : Entity} {o : ObjectType} {position : Path}
      {s : Selection} {i : Nat} {asked first earlier : Log}
      (hfound : (x.lookUp v.object v.parent v.selection v.path).Runs (.ok found) asked)
      (hread : x.read v.path found = .ok outline)
      (hreaches : outline.Reaches (x.resolveEntity v.selection.fields) v.path e position first)
      (ho : x.registry.object? e.typeKey = some o)
      (hs : (v.selection.fields.filter (Parent.entity e).selects)[i]? = some s)
      (hbefore : Resolver.Before position (x.fieldTasks o (.entity e) v.selection.fields) i
        earlier) :
      Leads x v ⟨o, .entity e, position ++ [.field s.responseKey], s,
        v.before ++ (asked ++ (first ++ earlier))⟩

/-- A field on the query root, when the host has let the root be resolved. -/
inductive Opens (x : Execution) (fields : List Selection) (path : Path) : Visit → Prop
  | field {s : Selection} {i : Nat} {parses earlier : Log}
      (hparse : (x.preParse path x.service.label x.registry.queryRoot.name).Runs (.ok ()) parses)
      (hs : (fields.filter Parent.root.selects)[i]? = some s)
      (hbefore : Resolver.Before path (x.fieldTasks x.registry.queryRoot .root fields) i earlier) :
      Opens x fields path
        ⟨x.registry.queryRoot, .root, path ++ [.field s.responseKey], s, parses ++ earlier⟩

/-- A field that comes to be resolved for what is selected on the query root. -/
def Visits (x : Execution) (fields : List Selection) (path : Path) (w : Visit) : Prop :=
  ∃ v, x.Opens fields path v ∧ ReflTransGen x.Leads v w

/-- What a selected field logs comes right after what those before it log. -/
theorem prefix_of_resolveObject {o : ObjectType} {parent : Parent} {position : Path} {s : Selection}
    {i : Nat} {earlier events during : Log} {outcome outcome' : Except FieldError Json}
    (hs : (fields.filter parent.selects)[i]? = some s)
    (hbefore : Resolver.Before position (x.fieldTasks o parent fields) i earlier)
    (h : (x.resolveObject o parent fields position).Runs outcome events)
    (hduring : (x.resolveField o parent (position ++ [.field s.responseKey]) s).Runs outcome'
      during) :
    earlier ++ during <+: events := by
  have happends := appends_fieldTasks x o parent fields
  have ht : (x.fieldTasks o parent fields)[i]? =
      some (.field s.responseKey, fun path => x.resolveField o parent path s) := by
    rw [fieldTasks, List.getElem?_map, hs]
    rfl
  rw [resolveObject_eq] at h
  obtain ⟨_, hruns, _⟩ := h.of_assemble happends
  exact hbefore.append_prefix happends hruns ht hduring

/-- A field is looked up before the turn of any field on an object in its value comes. -/
theorem Leads.asked (h : x.Leads v w) :
    ∃ found asked, (x.lookUp v.object v.parent v.selection v.path).Runs (.ok found) asked ∧
      v.before ++ asked <+: w.before := by
  cases h with
  | field hfound =>
    refine ⟨_, _, hfound, ?_⟩
    rw [List.prefix_append_right_inj]
    exact List.prefix_append _ _

theorem Leads.before_prefix (h : x.Leads v w) : v.before <+: w.before := by
  obtain ⟨_, asked, _, hprefix⟩ := h.asked
  exact (List.prefix_append _ asked).trans hprefix

theorem before_prefix_of_leads (h : ReflTransGen x.Leads v w) : v.before <+: w.before := by
  induction h with
  | refl => exact List.prefix_refl _
  | tail _ hstep ih => exact ih.trans hstep.before_prefix

/-- What a field logs is what its look-up logs, and then what the objects in its value log. -/
theorem events_of_resolveField {o : ObjectType} {parent : Parent} {s : Selection} {found : Found}
    {outline : Outline} {asked rest events : Log} {outcome outcome' : Except FieldError Json}
    (hfound : (x.lookUp o parent s path).Runs (.ok found) asked)
    (hread : x.read path found = .ok outline)
    (hrest : (outline.resolve (x.resolveEntity s.fields) path).Runs outcome' rest)
    (h : (x.resolveField o parent path s).Runs outcome events) : events = asked ++ rest := by
  cases fieldRun_of_resolveField h with
  | unfound hfails => cases (hfails.unique hfound).1
  | refused hfound' hread' _ =>
    cases (hfound'.unique hfound).1
    cases hread'.symm.trans hread
  | unread hfound' hread' _ =>
    cases (hfound'.unique hfound).1
    cases hread'.symm.trans hread
  | resolved hfound' hread' hrest' =>
    obtain ⟨hsame, rfl⟩ := hfound'.unique hfound
    cases hsame
    cases hread'.symm.trans hread
    rw [(hrest'.unique hrest).2]

/-- Everything that is logged for a field on an object in a value is logged for the value. -/
theorem Leads.after_prefix (h : x.Leads v w) : w.after x <+: v.after x := by
  obtain ⟨during, hduring, hafter⟩ := w.exists_runs x
  obtain ⟨events, hruns, hall⟩ := v.exists_runs x
  rw [hafter, hall]
  cases h with
  | @field found outline e o position s i asked first earlier hfound hread hreaches ho hs hbefore =>
    have hentity := appends_resolveEntity (x := x) v.selection.fields
    obtain ⟨_, rest, hrest⟩ := outline.appends_resolve hentity v.path
    obtain ⟨_, below, hbelow⟩ := hentity e position
    obtain rfl := events_of_resolveField hfound hread hrest hruns
    have hobjects : first ++ below <+: rest := hreaches.append_prefix hentity hrest hbelow
    rw [resolveEntity, ho] at hbelow
    have hfields : earlier ++ during <+: below := prefix_of_resolveObject hs hbefore hbelow hduring
    have hobject : first ++ (earlier ++ during) <+: rest :=
      ((List.prefix_append_right_inj first).2 hfields).trans hobjects
    simp only [List.append_assoc, List.prefix_append_right_inj]
    exact hobject

theorem after_prefix_of_leads (h : ReflTransGen x.Leads v w) : w.after x <+: v.after x := by
  induction h with
  | refl => exact List.prefix_refl _
  | tail _ hstep ih => exact hstep.after_prefix.trans ih

theorem Opens.after_prefix (h : x.Opens fields path v) :
    v.after x <+: ((x.resolveQueryRoot fields path).run.run []).2 := by
  obtain ⟨during, hduring, hafter⟩ := v.exists_runs x
  have hobject := appends_resolveObject (x := x) x.registry.queryRoot .root fields path
  obtain ⟨outcome, rest, hrest⟩ := hobject
  rw [hafter]
  cases h with
  | @field s i parses earlier hparse hs hbefore =>
    have hroot : (x.resolveQueryRoot fields path).Runs outcome (parses ++ rest) := hparse.bind hrest
    rw [hroot.run_nil, List.append_assoc, List.prefix_append_right_inj]
    exact prefix_of_resolveObject hs hbefore hrest hduring

/-- What has been logged when a field has been resolved is where the log of the run begins. -/
theorem Visits.after_prefix (h : x.Visits fields path w) :
    w.after x <+: ((x.resolveQueryRoot fields path).run.run []).2 := by
  obtain ⟨v, hopens, hway⟩ := h
  exact (after_prefix_of_leads hway).trans hopens.after_prefix

theorem exists_selected_of_event {o : ObjectType} {parent : Parent} {position : Path}
    {build : List Json → Json} {outcome : Except FieldError Json} {events : Log} {event : Event}
    (h : (Resolver.assemble build (x.fieldTasks o parent fields) position).Runs outcome events)
    (hevent : event ∈ events) :
    ∃ i s earlier, (fields.filter parent.selects)[i]? = some s ∧
      Resolver.Before position (x.fieldTasks o parent fields) i earlier ∧
      ∃ outcome during, (x.resolveField o parent (position ++ [.field s.responseKey]) s).Runs
        outcome during ∧ event ∈ during := by
  have happends := appends_fieldTasks x o parent fields
  obtain ⟨_, hruns, _⟩ := h.of_assemble happends
  obtain ⟨i, t, earlier, ht, hbefore, hfound⟩ :=
    Resolver.exists_before_of_event happends hruns hevent
  rw [fieldTasks, List.getElem?_map, Option.map_eq_some_iff] at ht
  obtain ⟨s, hs, rfl⟩ := ht
  exact ⟨i, s, earlier, hs, hbefore, hfound⟩

/-- By induction on what is selected: every event is one of a field whose turn comes. -/
theorem exists_leads_of_event {event : Event} (s : Selection) :
    ∀ v : Visit, v.selection = s → ∀ outcome events, (v.resolve x).Runs outcome events →
      event ∈ events → ∃ w, ReflTransGen x.Leads v w ∧ w.Logs x event := by
  induction s using Selection.induction_below with
  | h s ih =>
    rintro v rfl outcome events h hevent
    cases fieldRun_of_resolveField h with
    | unfound hfound => exact ⟨v, .refl, .asked hfound hevent⟩
    | refused hfound _ _ =>
      rcases List.mem_append.1 hevent with hevent | hevent
      · exact ⟨v, .refl, .asked hfound hevent⟩
      · exact ⟨v, .refl, .refused _ (List.mem_singleton.1 hevent)⟩
    | unread hfound _ _ => exact ⟨v, .refl, .asked hfound hevent⟩
    | @resolved found outline _ asked rest hfound hread hrest =>
      rcases List.mem_append.1 hevent with hevent | hevent
      · exact ⟨v, .refl, .asked hfound hevent⟩
      obtain ⟨e, position, first, hreaches, _, _, hobject, hevent⟩ :=
        Outline.exists_reaches_of_event (appends_resolveEntity v.selection.fields) hrest hevent
      rcases cases_resolveEntity x v.selection.fields e with heq | ⟨o, ho, heq⟩
      · rw [heq] at hobject
        obtain ⟨_, rfl⟩ := Resolver.runs_throw_iff.1 hobject
        cases hevent
      rw [heq] at hobject
      obtain ⟨i, s, earlier, hs, hbefore, _, _, hfield, hevent⟩ :=
        exists_selected_of_event hobject hevent
      have hstep := Leads.field hfound hread hreaches ho hs hbefore
      have hmem : s ∈ v.selection.fields := List.mem_of_mem_filter (List.mem_of_getElem? hs)
      obtain ⟨w, hway, hlogs⟩ := ih s hmem ⟨_, _, _, s, _⟩ rfl _ _ hfield hevent
      exact ⟨w, .head hstep hway, hlogs⟩

/-- Every event of a run is logged for the root or for a field that comes to be resolved. -/
theorem exists_visit_of_event {event : Event}
    (hevent : event ∈ ((x.resolveQueryRoot fields path).run.run []).2) :
    (∃ outcome parses, (x.preParse path x.service.label x.registry.queryRoot.name).Runs outcome
      parses ∧ event ∈ parses) ∨ ∃ w, x.Visits fields path w ∧ w.Logs x event := by
  have hobject := appends_resolveObject (x := x) x.registry.queryRoot .root fields path
  have hparses := appends_preParse x path x.service.label x.registry.queryRoot.name
  obtain ⟨outcome, events, hruns⟩ := hparses.bind fun _ => hobject
  have hroot : (x.resolveQueryRoot fields path).Runs outcome events := hruns
  rw [hroot.run_nil] at hevent
  rcases hruns.cases_bind hparses fun _ => hobject with
    ⟨error, hfails, _⟩ | ⟨_, parses, rest, hparse, hrest, rfl⟩
  · exact .inl ⟨_, _, hfails, hevent⟩
  rcases List.mem_append.1 hevent with hevent | hevent
  · exact .inl ⟨_, _, hparse, hevent⟩
  rw [resolveObject_eq] at hrest
  obtain ⟨i, s, earlier, hs, hbefore, _, _, hfield, hevent⟩ := exists_selected_of_event hrest hevent
  have hopens := Opens.field hparse hs hbefore
  obtain ⟨w, hway, hlogs⟩ := exists_leads_of_event s ⟨_, _, _, s, _⟩ rfl _ _ hfield hevent
  exact .inr ⟨w, ⟨_, hopens, hway⟩, hlogs⟩

end Execution

end ODataGraph
