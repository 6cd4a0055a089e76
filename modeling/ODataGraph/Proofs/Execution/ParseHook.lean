import ODataGraph.Proofs.Execution.RelativeRequest
import ODataGraph.Proofs.Execution.Visit

/-!
When the host is asked whether objects may be resolved. For a field that is requested it is asked
before the request is made, and only if it agrees is what comes back resolved. Objects that come in
the data of another one are resolved without asking.
-/

namespace ODataGraph

open Relation (TransGen)

namespace Execution

variable {x : Execution} {path : Path} {v : Visit} {f : Field} {key : String}

/-- A field whose values are made of objects. -/
structure IsComposite (x : Execution) (v : Visit) (f : Field) (key : String) : Prop where
  name : v.selection.name ≠ typenameField
  field : v.object.fields.get? v.selection.name = some f
  type : elementKey? x.registry f = some key

/-- Where the value of a field is. -/
def sourceOf (x : Execution) (v : Visit) (f : Field) : Source :=
  f.source x.service v.selection.name v.parent

/-- What the host is told of a field. -/
def contextOf (x : Execution) (v : Visit) (key : String) : ParseContext :=
  ⟨x.service, v.selection.name, x.registry.nameOf key⟩

/-- The host agrees to a field, and does so before anything else is done for it. -/
structure Announces (x : Execution) (v : Visit) (key : String)
    (hook : ParseContext → Except HookError Unit) : Prop where
  passed : hook (x.contextOf v key) = .ok ()
  first : v.before ++ [.parse (x.contextOf v key)] <+: v.after x
  below : ∀ w, TransGen x.Leads v w → v.before ++ [.parse (x.contextOf v key)] <+: w.before

/-- Whatever is logged for a field is logged for the objects in a value that is there already. -/
def ResolvesOnly (x : Execution) (v : Visit) (f : Field) (held : Json) : Prop :=
  ∃ events, ((Outline.ofValue x.registry f.type held).resolve (x.resolveEntity v.selection.fields)
    v.path).Runs (v.outcome x) events ∧ v.after x = v.before ++ events

theorem passed_of_preParse {fieldName typeName : String}
    {hook : ParseContext → Except HookError Unit} {parses : Log}
    (hhook : (x.hooks path).preParse = some hook)
    (h : (x.preParse path fieldName typeName).Runs (.ok ()) parses) :
    hook ⟨x.service, fieldName, typeName⟩ = .ok () ∧
      parses = [.parse ⟨x.service, fieldName, typeName⟩] := by
  obtain ⟨hpassed, rfl⟩ := h.unique (runs_preParse _ _ hhook)
  refine ⟨?_, rfl⟩
  cases hanswer : hook ⟨x.service, fieldName, typeName⟩ with
  | error error =>
    rw [hanswer] at hpassed
    cases hpassed
  | ok _ => rfl

/-- The host is asked about a field only if it is made of objects and has to be requested. -/
theorem composite_of_logs {context : ParseContext} (h : v.Logs x (.parse context)) :
    ∃ f key resource style, x.IsComposite v f key ∧
      x.sourceOf v f = .remote resource style ∧ context = x.contextOf v key := by
  cases h with
  | refused _ hevent => cases hevent
  | asked h hevent =>
    cases located_of_lookUp h with
    | typename => cases hevent
    | missing => cases hevent
    | nowhere => cases hevent
    | inline => cases hevent
    | @remote f resource style _ _ hcall hrequest =>
      have hparse : ∃ outcome parses, (x.preParseField v.selection f v.path).Runs outcome parses ∧
          .parse context ∈ parses := by
        rcases cases_request hrequest with
          ⟨_, hfails, _⟩ | ⟨_, parses, asks, hparse, hask, _, rfl⟩
        · exact ⟨_, _, hfails, hevent⟩
        · rcases List.mem_append.1 hevent with hevent | hevent
          · exact ⟨_, _, hparse, hevent⟩
          · cases (asking_of_ask hask).requests _ hevent
      obtain ⟨_, _, hparse, hevent⟩ := hparse
      rw [preParseField] at hparse
      cases hkey : elementKey? x.registry f with
      | none =>
        rw [hkey] at hparse
        obtain ⟨_, rfl⟩ := Resolver.runs_pure_iff.1 hparse
        cases hevent
      | some key =>
        rw [hkey] at hparse
        cases eq_parse_of_preParse hparse hevent
        exact ⟨f, key, resource, style, ⟨hcall.name, hcall.field, hkey⟩, hcall.source, rfl⟩

/-- A look-up that makes a request has asked the host first. -/
theorem announces_of_lookUp {hook : ParseContext → Except HookError Unit} {resource : String}
    {style : Url.CallStyle} {found : Found} {asked rest : Log} (hcomposite : x.IsComposite v f key)
    (hhook : (x.hooks v.path).preParse = some hook)
    (hfound : (x.lookUp v.object v.parent v.selection v.path).Runs (.ok found) asked)
    (hrequest : (x.request resource v.selection f style v.path).Runs (.ok found) asked)
    (hafter : v.after x = v.before ++ (asked ++ rest)) : x.Announces v key hook := by
  rcases cases_request hrequest with ⟨_, _, hends⟩ | ⟨_, parses, asks, hparse, _, _, rfl⟩
  · cases hends
  rw [preParseField, hcomposite.type] at hparse
  obtain ⟨hpassed, rfl⟩ := passed_of_preParse hhook hparse
  refine ⟨hpassed, ?_, ?_⟩
  · rw [hafter, List.append_assoc, List.prefix_append_right_inj]
    exact List.prefix_append _ _
  · intro w hway
    obtain ⟨u, hstep, hbelow⟩ := TransGen.head'_iff.1 hway
    obtain ⟨found', asked', hfound', hprefix⟩ := hstep.asked
    rw [(hfound'.unique hfound).2, ← List.append_assoc] at hprefix
    calc v.before ++ [.parse (x.contextOf v key)]
        <+: v.before ++ [.parse (x.contextOf v key)] ++ asks := List.prefix_append _ _
      _ <+: u.before := hprefix
      _ <+: w.before := before_prefix_of_leads hbelow

/-- The host has been asked about a field whose value was requested, and not about one whose value
came in the data of its object. -/
theorem announces_of_outcome {value : Json} (hcomposite : x.IsComposite v f key)
    (houtcome : v.outcome x = .ok value) (hvalue : value ≠ .null) :
    (∃ held, x.sourceOf v f = .inline held ∧ x.ResolvesOnly v f held) ∨
      ∃ resource style, x.sourceOf v f = .remote resource style ∧
        ∀ hook, (x.hooks v.path).preParse = some hook → x.Announces v key hook := by
  obtain ⟨events, hruns, hafter⟩ := v.exists_runs x
  rw [houtcome] at hruns
  cases fieldRun_of_resolveField hruns with
  | refused => exact absurd rfl hvalue
  | @resolved found outline _ asked rest hfound hread hrest =>
    cases located_of_lookUp hfound with
    | typename hname => exact absurd hname hcomposite.name
    | missing error fatal =>
      cases hread
      rw [Outline.resolve_failed] at hrest
      cases (Resolver.runs_throw_iff.1 hrest).1
    | nowhere =>
      cases hread
      rw [Outline.resolve_leaf] at hrest
      cases (Resolver.runs_pure_iff.1 hrest).1
      exact absurd rfl hvalue
    | inline _ hf hsource =>
      cases hcomposite.field.symm.trans hf
      cases hread
      rw [← houtcome] at hrest
      exact .inl ⟨_, hsource, rest, hrest, hafter⟩
    | @remote f' resource style _ _ hcall hrequest =>
      cases hcomposite.field.symm.trans hcall.field
      refine .inr ⟨resource, style, hcall.source, fun hook hhook => ?_⟩
      exact announces_of_lookUp hcomposite hhook hfound hrequest hafter

/-- In every run of what is selected on the query root the host agrees to a field made of objects
before anything below it is resolved, if the field has to be requested. Nobody is asked about a field
whose value is in the data of its object. -/
theorem announces_of_resolveQueryRoot (x : Execution) (fields : List Selection) (path : Path) :
    (∀ v f key value, x.Visits fields path v → x.IsComposite v f key → v.outcome x = .ok value →
      value ≠ .null → v.after x <+: ((x.resolveQueryRoot fields path).run.run []).2 ∧
        ((∃ held, x.sourceOf v f = .inline held ∧ x.ResolvesOnly v f held) ∨
          ∃ resource style, x.sourceOf v f = .remote resource style ∧
            ∀ hook, (x.hooks v.path).preParse = some hook → x.Announces v key hook)) ∧
    ∀ context, .parse context ∈ ((x.resolveQueryRoot fields path).run.run []).2 →
      context = ⟨x.service, x.service.label, x.registry.queryRoot.name⟩ ∨
        ∃ v f key resource style, x.Visits fields path v ∧ x.IsComposite v f key ∧
          x.sourceOf v f = .remote resource style ∧ context = x.contextOf v key := by
  constructor
  · intro v f key value hvisits hcomposite houtcome hvalue
    exact ⟨hvisits.after_prefix, announces_of_outcome hcomposite houtcome hvalue⟩
  · intro context hevent
    rcases exists_visit_of_event hevent with ⟨_, _, hparse, hevent⟩ | ⟨v, hvisits, hlogs⟩
    · left
      cases eq_parse_of_preParse hparse hevent
      rfl
    · obtain ⟨f, key, resource, style, hcomposite, hsource, hcontext⟩ := composite_of_logs hlogs
      exact .inr ⟨v, f, key, resource, style, hvisits, hcomposite, hsource, hcontext⟩

end Execution

/-! The mascot again, answered with its friend. The host asks to be told of everything. -/

namespace Companions

def text : String := "\x7b\"Name\":\"Rex\",\"Friend\":\x7b\"Name\":\"Max\"\x7d\x7d"

def max : Json := .object [("Name", .string "Max")]

def rex : Json.Members := [("Name", .string "Rex"), ("Friend", max)]

def answer : Http.Response where
  status := ⟨200⟩
  body := Text.Utf8.encode text

def hook : ParseContext → Except HookError Unit := fun _ => .ok ()

def execution : Execution where
  registry := Mascot.registry
  client := fun _ _ => .ok answer
  hooks := fun _ => { preParse := some hook }

def rootContext : ParseContext := ⟨Kennel.service, "zoo", Mascot.registry.queryRoot.name⟩

def mascotContext : ParseContext := ⟨Kennel.service, "Mascot", "zoo_Pet"⟩

def asked : Log := [.parse mascotContext,
  .send [.field "zoo", .field "Mascot"] { url := Mascot.mascotUrl }]

def visit : Visit where
  object := Mascot.registry.queryRoot
  parent := .root
  path := [.field "zoo", .field "Mascot"]
  selection := Mascot.mascot
  before := [.parse rootContext]

def entity : Entity := { Mascot.entity with data := rex }

/-- The friend is in the data of the mascot. -/
def friendVisit : Visit where
  object := Mascot.pet
  parent := .entity entity
  path := Mascot.place
  selection := Mascot.friend
  before := .parse rootContext :: asked

theorem read_text : Text.Utf8.decodeLossy answer.body = text ∧
    Json.parse? text = some (.object rex) := by
  decide +kernel

theorem lookUp_mascot : (execution.lookUp visit.object visit.parent visit.selection visit.path).Runs
    (.ok (.asked Mascot.mascotField Mascot.mascotUrl { url := Mascot.mascotUrl })) asked := by
  have hurl : Execution.fieldUrl execution.registry Kennel.service.baseUrl Mascot.mascot
      Mascot.mascotField .segment = Mascot.mascotUrl := Mascot.exchange.1
  have hparse : (execution.preParse visit.path "Mascot" "zoo_Pet").Runs (.ok ())
      [.parse mascotContext] := Execution.runs_preParse_of_passed rfl rfl
  have hask : (execution.ask visit.path "Mascot" Mascot.mascotUrl).Runs
      (.ok (some { url := Mascot.mascotUrl })) [.send visit.path { url := Mascot.mascotUrl }] :=
    Execution.runs_ask rfl Mascot.isValid_mascotUrl rfl
  rw [← hurl] at hask
  have hrequest : (execution.request Kennel.service.baseUrl Mascot.mascot Mascot.mascotField
      .segment visit.path).Runs _ _ := Execution.runs_request hparse hask
  rw [hurl] at hrequest
  exact hrequest

theorem read_mascot : execution.read visit.path
    (.asked Mascot.mascotField Mascot.mascotUrl { url := Mascot.mascotUrl }) =
      .ok (.entity entity) := by
  obtain ⟨htext, hparse⟩ := read_text
  have hanswer : execution.answer visit.path { url := Mascot.mascotUrl } = .ok ⟨text⟩ := by
    rw [Execution.answer, ← htext]
    rfl
  exact Execution.read_of_answer hanswer (Decoded.ofPayload_of_object rfl rfl rfl hparse rfl)

theorem opens_visit : execution.Opens [Mascot.mascot] [.field "zoo"] visit := by
  have hparse : (execution.preParse [.field "zoo"] execution.service.label
      execution.registry.queryRoot.name).Runs (.ok ()) [.parse rootContext] :=
    Execution.runs_preParse_of_passed rfl rfl
  have hs : ([Mascot.mascot].filter Parent.root.selects)[0]? = some Mascot.mascot := rfl
  exact .field hparse hs Resolver.before_zero

theorem leads_friendVisit : execution.Leads visit friendVisit := by
  have hs : ([Mascot.petName, Mascot.friend].filter (Parent.entity entity).selects)[1]? =
      some Mascot.friend := rfl
  have hname : (execution.resolveField Mascot.pet (.entity entity)
      (visit.path ++ [.field "Name"]) Mascot.petName).Runs (.ok (.string "Rex")) [] := by
    have hfound : (execution.lookUp Mascot.pet (.entity entity) Mascot.petName
        (visit.path ++ [.field "Name"])).Runs (.ok (.outline (.leaf (.string "Rex")))) [] :=
      Resolver.runs_pure _
    apply Execution.runs_resolveField_resolved hfound rfl
    rw [Outline.resolve_leaf]
    exact Resolver.runs_pure _
  have hbefore : Resolver.Before visit.path
      (execution.fieldTasks Mascot.pet (.entity entity) visit.selection.fields) 1 [] :=
    Resolver.Before.succ (t := (.field "Name",
      fun path => execution.resolveField Mascot.pet (.entity entity) path Mascot.petName)) hname
      Resolver.before_zero
  exact .field lookUp_mascot read_mascot (.entity entity visit.path) rfl hs hbefore

theorem isComposite_visit : execution.IsComposite visit Mascot.mascotField "Pet" :=
  ⟨by decide, rfl, rfl⟩

theorem isComposite_friendVisit : execution.IsComposite friendVisit Mascot.friendField "Pet" :=
  ⟨by decide, rfl, rfl⟩

def isObject : Except FieldError Json → Bool
  | .ok (.object _) => true
  | _ => false

theorem exists_of_isObject {outcome : Except FieldError Json} (h : isObject outcome = true) :
    ∃ members, outcome = .ok (.object members) := by
  unfold isObject at h
  split at h
  · exact ⟨_, rfl⟩
  · cases h

def isSilentOn (fieldName : String) : Event → Bool
  | .parse context => context.fieldName != fieldName
  | _ => true

/-- Both become objects, and nothing is announced of the friend. -/
theorem outcomes : isObject (visit.outcome execution) = true ∧
    isObject (friendVisit.outcome execution) = true ∧
    ((execution.resolveQueryRoot [Mascot.mascot] [.field "zoo"]).run.run []).2.all
      (isSilentOn "Friend") = true := by
  decide +kernel

end Companions

/-- The host is told of the mascot before anything on it is resolved. -/
theorem announces_mascot : ∃ members,
    Companions.execution.Visits [Mascot.mascot] [.field "zoo"] Companions.visit ∧
    Companions.execution.IsComposite Companions.visit Mascot.mascotField "Pet" ∧
    Companions.visit.outcome Companions.execution = .ok (.object members) ∧
    Companions.execution.Announces Companions.visit "Pet" Companions.hook := by
  have hvisits : Companions.execution.Visits [Mascot.mascot] [.field "zoo"] Companions.visit :=
    ⟨_, Companions.opens_visit, .refl⟩
  obtain ⟨members, houtcome⟩ : ∃ members,
      Companions.visit.outcome Companions.execution = .ok (.object members) :=
    Companions.exists_of_isObject Companions.outcomes.1
  refine ⟨members, hvisits, Companions.isComposite_visit, houtcome, ?_⟩
  obtain ⟨_, ⟨held, hsource, _⟩ | ⟨_, _, _, hannounces⟩⟩ :=
    (Execution.announces_of_resolveQueryRoot _ _ _).1 _ _ _ _ hvisits Companions.isComposite_visit
      houtcome nofun
  · cases hsource
  · exact hannounces _ rfl

/-- The host is not told of every field made of objects. -/
theorem not_forall_announced : ¬ ∀ (service : Service) (document : Csdl.Document) (x : Execution)
    (fields : List Selection) (path : Path) (v : Visit) (f : Field) (key : String) (value : Json),
    Registry.build service document = .ok x.registry →
    (∀ path, (x.hooks path).preParse.isSome = true) → x.Visits fields path v →
    x.IsComposite v f key → v.outcome x = .ok value → value ≠ .null →
    ∃ context, context.fieldName = v.selection.name ∧
      .parse context ∈ ((x.resolveQueryRoot fields path).run.run []).2 := by
  intro h
  obtain ⟨_, hobject, hsilent⟩ := Companions.outcomes
  obtain ⟨members, houtcome⟩ := Companions.exists_of_isObject hobject
  have hvisits :
      Companions.execution.Visits [Mascot.mascot] [.field "zoo"] Companions.friendVisit :=
    ⟨_, Companions.opens_visit, .single Companions.leads_friendVisit⟩
  obtain ⟨context, hname, hevent⟩ := h Kennel.service Mascot.document Companions.execution _ _ _ _ _
    _ Mascot.build_document (fun _ => rfl) hvisits Companions.isComposite_friendVisit houtcome nofun
  have hother := List.all_eq_true.1 hsilent _ hevent
  rw [Companions.isSilentOn, bne_iff_ne] at hother
  exact hother hname

end ODataGraph
