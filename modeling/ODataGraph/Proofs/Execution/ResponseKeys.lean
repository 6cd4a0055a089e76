import Mathlib.Data.List.Induction
import ODataGraph.Engine.Query
import ODataGraph.Proofs.Execution.Handing
import ODataGraph.Proofs.Operation.Termination
import ODataGraph.Proofs.Sequence

/-!
Which of several selections with one response key counts. Selections are not merged: the value is
that of the last one, and what only the others select below it is not in the response.
-/

namespace ODataGraph

namespace Json.Members

theorem map_fst_insert (name : String) (value : Json) (members : Members) :
    (insert name value members).map Prod.fst =
      if name ∈ members.map Prod.fst then members.map Prod.fst
      else members.map Prod.fst ++ [name] := by
  induction members with
  | nil => rfl
  | cons m rest ih =>
    obtain ⟨n, v⟩ := m
    by_cases hn : n = name
    · simp [insert, hn]
    · simp only [insert, if_neg hn, List.map_cons, ih, List.mem_cons, Ne.symm hn, false_or]
      split <;> rfl

theorem get?_cons (name : String) (value : Json) (rest : Members) (key : String) :
    get? ((name, value) :: rest) key = if key = name then some value else rest.get? key := by
  rw [get?, List.lookup_cons]
  by_cases hk : key = name
  · simp [hk]
  · rw [beq_eq_false_iff_ne.2 hk, if_neg hk]
    rfl

theorem get?_insert (name : String) (value : Json) (members : Members) (key : String) :
    (insert name value members).get? key = if key = name then some value else members.get? key := by
  induction members with
  | nil => exact get?_cons name value [] key
  | cons m rest ih =>
    obtain ⟨n, v⟩ := m
    by_cases hn : n = name
    · rw [insert, if_pos hn, get?_cons, get?_cons, hn]
      split <;> rfl
    · rw [insert, if_neg hn, get?_cons, get?_cons, ih]
      by_cases hk : key = n
      · rw [if_pos hk, if_pos hk, if_neg (hk ▸ hn)]
      · rw [if_neg hk, if_neg hk]

theorem ofList_concat (members : Members) (name : String) (value : Json) :
    ofList (members ++ [(name, value)]) = insert name value (ofList members) := by
  simp [ofList]

theorem map_fst_ofList (members : Members) :
    (ofList members).map Prod.fst = (members.map Prod.fst).eraseDups := by
  induction members using List.reverseRecOn with
  | nil => rfl
  | append_singleton members m ih =>
    obtain ⟨name, value⟩ := m
    rw [ofList_concat, map_fst_insert, ih, List.map_append, List.eraseDups_append]
    by_cases hm : name ∈ members.map Prod.fst
    · simp [List.mem_eraseDups, List.removeAll, hm]
    · simp [List.mem_eraseDups, List.removeAll, hm, List.eraseDups_cons]

/-- Of members with one name the last one counts. -/
theorem get?_ofList (members : Members) (key : String) :
    (ofList members).get? key = (members.reverse.find? (·.1 == key)).map Prod.snd := by
  induction members using List.reverseRecOn with
  | nil => rfl
  | append_singleton members m ih =>
    obtain ⟨name, value⟩ := m
    rw [ofList_concat, get?_insert, ih, List.reverse_append, List.reverse_singleton,
      List.singleton_append, List.find?_cons]
    by_cases hk : key = name
    · simp [hk]
    · rw [if_neg hk, beq_eq_false_iff_ne.2 (Ne.symm hk)]

end Json.Members

section

variable {α : Type} {keyOf : α → String} {key : String} {as : List α} {a : α}

/-- The last of several that have a response key. -/
def last? (keyOf : α → String) (key : String) (as : List α) : Option α :=
  as.reverse.find? (keyOf · == key)

theorem key_of_last? (h : last? keyOf key as = some a) : keyOf a = key := by
  rw [last?] at h
  have hkey := List.find?_some h
  exact eq_of_beq hkey

theorem mem_of_last? (h : last? keyOf key as = some a) : a ∈ as :=
  List.mem_reverse.1 (List.mem_of_find?_eq_some h)

/-- Where each has a member of its own, the last one with a key has the member that counts. -/
theorem exists_get?_of_last? {R : α → Json → Prop} {members : Json.Members}
    (h : List.Forall₂ (fun a m => m.1 = keyOf a ∧ R a m.2) as members)
    (ha : last? keyOf key as = some a) :
    ∃ v, (Json.Members.ofList members).get? key = some v ∧ R a v := by
  rw [Json.Members.get?_ofList]
  rw [last?] at ha
  have hreverse := List.rel_reverse h
  generalize as.reverse = lasts, members.reverse = values at hreverse ha
  induction hreverse with
  | nil => cases ha
  | @cons b m lasts values hm hrest ih =>
    rw [List.find?_cons] at ha ⊢
    rw [hm.1]
    cases hb : keyOf b == key with
    | true =>
      rw [hb] at ha
      cases ha
      exact ⟨m.2, rfl, hm.2⟩
    | false =>
      rw [hb] at ha
      exact ih ha

theorem of_last?_of_get? {R : α → Json → Prop} {members : Json.Members} {v : Json}
    (h : List.Forall₂ (fun a m => m.1 = keyOf a ∧ R a m.2) as members)
    (ha : last? keyOf key as = some a) (hv : (Json.Members.ofList members).get? key = some v) :
    R a v := by
  obtain ⟨w, hw, hR⟩ := exists_get?_of_last? h ha
  cases hv.symm.trans hw
  exact hR

theorem map_fst_of_forall₂ {R : α → Json → Prop} {members : Json.Members}
    (h : List.Forall₂ (fun a m => m.1 = keyOf a ∧ R a m.2) as members) :
    members.map Prod.fst = as.map keyOf := by
  induction h with
  | nil => rfl
  | cons hm _ ih => rw [List.map_cons, List.map_cons, hm.1, ih]

end

namespace Execution

variable {x : Execution} {o : ObjectType} {parent : Parent} {path : Path} {s : Selection}
variable {fields : List Selection} {v : Json}

/-- The values of a field are objects of the service. -/
def HoldsObjects (x : Execution) (o : ObjectType) (name : String) : Prop :=
  name ≠ typenameField ∧
    ∃ f key, o.fields.get? name = some f ∧ f.type.key? = some key ∧ x.registry.isComposite key

mutual

/-- Every object in a value carries what is selected on it. -/
inductive Carries (x : Execution) : Path → List Selection → Json → Prop
  | null (path : Path) (fields : List Selection) : Carries x path fields .null
  | array {path : Path} {fields : List Selection} {items : List Json}
      (h : ∀ i item, items[i]? = some item → Carries x (path ++ [.index i]) fields item) :
      Carries x path fields (.array items)
  | object {path : Path} {fields : List Selection} {members : Json.Members} (e : Entity)
      (o : ObjectType) (ho : x.registry.object? e.typeKey = some o)
      (h : Shows x o (.entity e) path fields members) : Carries x path fields (.object members)

/-- The members of an object have the response keys of what applies to it, each once. Each value is
that of the last selection with its key, and carries what that one selects. -/
inductive Shows (x : Execution) :
    ObjectType → Parent → Path → List Selection → Json.Members → Prop
  | intro {o : ObjectType} {parent : Parent} {path : Path} {fields : List Selection}
      {members : Json.Members}
      (keys : members.map Prod.fst =
        ((fields.filter parent.selects).map (·.responseKey)).eraseDups)
      (value : ∀ key s v, last? (·.responseKey) key (fields.filter parent.selects) = some s →
        members.get? key = some v → (x.resolveField o parent (path ++ [.field key]) s).Gives (.ok v))
      (below : ∀ key s v, last? (·.responseKey) key (fields.filter parent.selects) = some s →
        members.get? key = some v → x.HoldsObjects o s.name →
        Carries x (path ++ [.field key]) s.fields v) :
      Shows x o parent path fields members

end

theorem gives_resolveEntity {e : Entity} (h : (x.resolveEntity fields e path).Gives (.ok v)) :
    ∃ o pairs, x.registry.object? e.typeKey = some o ∧
      (x.resolveFields o (.entity e) path fields).Gives (.ok pairs) ∧
      v = .object (Json.Members.ofList pairs) := by
  rw [resolveEntity] at h
  cases ho : x.registry.object? e.typeKey with
  | none =>
    rw [ho, Resolver.gives_throw] at h
    cases h
  | some o =>
    rw [ho] at h
    obtain ⟨pairs, hpairs, h⟩ := Resolver.gives_bind_ok h
    rw [Resolver.gives_pure] at h
    cases h
    exact ⟨o, pairs, rfl, hpairs, rfl⟩

theorem gives_resolveFields {pairs : List (String × Json)}
    (h : (x.resolveFields o parent path fields).Gives (.ok pairs)) :
    List.Forall₂ (fun s m => m.1 = s.responseKey ∧
      (x.resolveField o parent (path ++ [.field s.responseKey]) s).Gives (.ok m.2))
      (fields.filter parent.selects) pairs := by
  induction fields generalizing pairs with
  | nil =>
    rw [resolveFields, Resolver.gives_pure] at h
    cases h
    exact .nil
  | cons s rest ih =>
    rw [resolveFields] at h
    by_cases hs : parent.selects s = true
    · rw [if_pos hs] at h
      obtain ⟨v, hv, h⟩ := Resolver.gives_bind_ok h
      obtain ⟨values, hvalues, h⟩ := Resolver.gives_bind_ok h
      rw [Resolver.gives_pure] at h
      cases h
      rw [List.filter_cons_of_pos hs]
      exact .cons ⟨rfl, hv⟩ (ih hvalues)
    · rw [if_neg hs] at h
      rw [List.filter_cons_of_neg hs]
      exact ih h

theorem shows_of_gives {pairs : List (String × Json)}
    (h : (x.resolveFields o parent path fields).Gives (.ok pairs))
    (hbelow : ∀ s ∈ fields, ∀ path v, (x.resolveField o parent path s).Gives (.ok v) →
      x.HoldsObjects o s.name → x.Carries path s.fields v) :
    x.Shows o parent path fields (Json.Members.ofList pairs) := by
  let Resolved (s : Selection) (v : Json) : Prop :=
    (x.resolveField o parent (path ++ [.field s.responseKey]) s).Gives (.ok v)
  have hpairs := gives_resolveFields h
  have hvalue : ∀ key s v, last? (·.responseKey) key (fields.filter parent.selects) = some s →
      (Json.Members.ofList pairs).get? key = some v →
      (x.resolveField o parent (path ++ [.field key]) s).Gives (.ok v) := by
    intro key s v hs hv
    have hgives := of_last?_of_get? (R := Resolved) hpairs hs hv
    rwa [← key_of_last? hs]
  refine .intro ?_ hvalue ?_
  · rw [Json.Members.map_fst_ofList, map_fst_of_forall₂ (R := Resolved) hpairs]
  · intro key s v hs hv hobjects
    have hmem := List.mem_of_mem_filter (mem_of_last? hs)
    exact hbelow s hmem _ v (hvalue key s v hs hv) hobjects

/-- A property of values at paths: null has it, and so do lists whose items have it. -/
structure Spreads (P : Path → Json → Prop) : Prop where
  null : ∀ path, P path .null
  array : ∀ path items, (∀ i item, items[i]? = some item → P (path ++ [.index i]) item) →
    P path (.array items)

namespace Spreads

variable {P : Path → Json → Prop} {onEntity : Entity → Path → Resolver Json} {f : Field}
variable {type : TypeReference} {value : Json} {key : String}

theorem completeValue (hP : Spreads P)
    (hentity : ∀ data origin e path v, Entity.materialize x.registry key data origin = .ok e →
      (onEntity e path).Gives (.ok v) → P path v)
    (hk : type.key? = some key) (hc : x.registry.isComposite key)
    (h : (ODataGraph.completeValue x.registry onEntity type value path).Gives (.ok v)) :
    P path v := by
  induction type generalizing value path v with
  | scalar type => cases hk
  | named name =>
    cases hk
    cases value with
    | object data =>
      rw [ODataGraph.completeValue, if_pos hc] at h
      obtain ⟨e, he, h⟩ := Resolver.gives_bind_ok h
      rw [Resolver.gives_lift] at he
      exact hentity data none e path v he.symm h
    | _ =>
      simp only [ODataGraph.completeValue, if_pos hc, Resolver.gives_pure] at h
      cases h
      exact hP.null path
  | list element ih =>
    cases value with
    | array items =>
      rw [ODataGraph.completeValue] at h
      obtain ⟨values, hvalues, h⟩ := Resolver.gives_bind_ok h
      rw [Resolver.gives_pure] at h
      cases h
      apply hP.array
      intro i item hitem
      obtain ⟨value, _, hvalue⟩ := Resolver.gives_zipIdx_mapM_ok hvalues hitem
      exact ih hk hvalue
    | _ =>
      simp only [ODataGraph.completeValue, Resolver.gives_pure] at h
      cases h
      exact hP.null path
  | nonNull type ih =>
    cases value with
    | null =>
      simp only [ODataGraph.completeValue, Resolver.gives_pure] at h
      cases h
      exact hP.null path
    | _ =>
      rw [ODataGraph.completeValue] at h
      · exact ih hk h
      · rintro ⟨⟩

theorem decoded (hP : Spreads P)
    (hentity : ∀ data origin e path v, Entity.materialize x.registry key data origin = .ok e →
      (onEntity e path).Gives (.ok v) → P path v)
    (hk : type.key? = some key) {payload : Payload} {url : String} {decoded : Decoded}
    (hdecoded : Decoded.ofPayload x.registry type payload url false = .ok decoded)
    (h : (completeDecoded onEntity path decoded).Gives (.ok v)) : P path v := by
  rcases Decoded.cases_ofPayload hdecoded with
    ⟨key', items, entities, _, hk', _, _, hentities, rfl⟩ |
    ⟨key', body, e, _, hk', _, _, he, rfl⟩ | ⟨hnone, _⟩
  · cases hk.symm.trans hk'
    obtain ⟨values, hvalues, h⟩ := Resolver.gives_bind_ok h
    rw [Resolver.gives_pure] at h
    cases h
    apply hP.array
    intro i item hitem
    obtain ⟨e, he, hvalue⟩ := Resolver.gives_zipIdx_mapM_ok hvalues hitem
    obtain ⟨_, _, he⟩ := exists_getElem?_of_mapM_ok hentities he
    obtain ⟨data, _, he⟩ := Decoded.entityOf_eq_ok_iff.1 he
    exact hentity data none e _ item he hvalue
  · cases hk.symm.trans hk'
    obtain ⟨data, _, he⟩ := Decoded.entityOf_eq_ok_iff.1 he
    exact hentity data (some url) e path v he h
  · cases hk.symm.trans hnone

theorem fetch (hP : Spreads P)
    (hentity : ∀ data origin e path v, Entity.materialize x.registry key data origin = .ok e →
      (onEntity e path).Gives (.ok v) → P path v)
    (hk : f.type.key? = some key) {resource : String} {call : Url.CallStyle}
    (h : (x.fetch resource s f call path onEntity).Gives (.ok v)) : P path v := by
  rw [Execution.fetch] at h
  obtain ⟨_, _, h⟩ := Resolver.gives_bind_ok h
  obtain ⟨payload?, _, h⟩ := Resolver.gives_bind_ok h
  cases payload? with
  | none =>
    rw [Resolver.gives_pure] at h
    cases h
    exact hP.null path
  | some payload =>
    obtain ⟨decoded, hdecoded, h⟩ := Resolver.gives_bind_ok h
    rw [Resolver.gives_lift] at hdecoded
    exact hP.decoded hentity hk hdecoded.symm h

/-- The value of a field has a property as soon as the objects have it that are of its type. -/
theorem resolveField (hP : Spreads P)
    (hentity : ∀ data origin e path v, Entity.materialize x.registry key data origin = .ok e →
      (x.resolveEntity s.fields e path).Gives (.ok v) → P path v)
    (hname : s.name ≠ typenameField) (hf : o.fields.get? s.name = some f)
    (hk : f.type.key? = some key) (hc : x.registry.isComposite key)
    (h : (x.resolveField o parent path s).Gives (.ok v)) : P path v := by
  rw [resolveField_eq] at h
  rcases Resolver.gives_recover_ok h with h | rfl
  · rw [fieldValue_eq hname hf] at h
    cases hsource : f.source x.service s.name parent with
    | nowhere =>
      rw [hsource, Resolver.gives_pure] at h
      cases h
      exact hP.null path
    | inline value =>
      rw [hsource] at h
      exact hP.completeValue hentity hk hc h
    | remote resource call =>
      rw [hsource] at h
      exact hP.fetch hentity hk h
    | unresolvable =>
      rw [hsource, Resolver.gives_throw] at h
      cases h
  · exact hP.null path

theorem resolveValue (hP : Spreads P)
    (hentity : ∀ data origin e path v, Entity.materialize x.registry key data origin = .ok e →
      (x.resolveEntity fields e path).Gives (.ok v) → P path v)
    (hk : type.key? = some key) (hc : x.registry.isComposite key)
    (h : (x.resolveValue type value fields path).Gives (.ok v)) : P path v := by
  rw [Execution.resolveValue] at h
  rcases Resolver.gives_recover_ok h with h | rfl
  · exact hP.completeValue hentity hk hc h
  · exact hP.null path

end Spreads

theorem spreads_carries (x : Execution) (fields : List Selection) :
    Spreads fun path v => x.Carries path fields v where
  null path := .null path fields
  array _ _ h := .array h

theorem carries_of_resolveEntity {e : Entity}
    (hbelow : ∀ s ∈ fields, ∀ o parent path v, (x.resolveField o parent path s).Gives (.ok v) →
      x.HoldsObjects o s.name → x.Carries path s.fields v)
    (h : (x.resolveEntity fields e path).Gives (.ok v)) : x.Carries path fields v := by
  obtain ⟨o, pairs, ho, hpairs, rfl⟩ := gives_resolveEntity h
  exact .object e o ho (shows_of_gives hpairs fun s hs => hbelow s hs o (.entity e))

/-- By induction on the selections: what a field holds is resolved with what is selected below. -/
theorem carries_of_resolveField (s : Selection) : ∀ o parent path v,
    (x.resolveField o parent path s).Gives (.ok v) → x.HoldsObjects o s.name →
    x.Carries path s.fields v := by
  induction s using Selection.induction_below with
  | h s ih =>
    intro o parent path v h ⟨hname, f, key, hf, hk, hc⟩
    apply (spreads_carries x s.fields).resolveField ?_ hname hf hk hc h
    exact fun _ _ _ _ _ _ => carries_of_resolveEntity ih

theorem shows_of_resolveObject (h : (x.resolveObject o parent fields path).Gives (.ok v)) :
    ∃ members, v = .object members ∧ x.Shows o parent path fields members := by
  rw [resolveObject] at h
  obtain ⟨pairs, hpairs, h⟩ := Resolver.gives_bind_ok h
  rw [Resolver.gives_pure] at h
  cases h
  exact ⟨_, rfl, shows_of_gives hpairs fun s _ => carries_of_resolveField s o parent⟩

theorem carries_of_resolveValue {type : TypeReference} {value : Json} {key : String}
    (hk : type.key? = some key) (hc : x.registry.isComposite key)
    (h : (x.resolveValue type value fields path).Gives (.ok v)) : x.Carries path fields v := by
  apply (spreads_carries x fields).resolveValue ?_ hk hc h
  intro _ _ _ _ _ _
  exact carries_of_resolveEntity fun s _ => carries_of_resolveField s

end Execution

namespace Engine

variable {e : Engine} {cancelled : Bool} {kind : RootKind} {f : RootField} {path : Path}

/-- What the value of a root field carries: the type's name, what is selected on a service, or what
is selected on the objects that the host gives. -/
def RootShows (e : Engine) (cancelled : Bool) (kind : RootKind) (f : RootField) (v : Json) : Prop :=
  match f.target with
  | .typename => v = .string kind.typeName
  | .service s => v = .null ∨ ∃ members, v = .object members ∧
      (e.execution s cancelled).Shows (s.root kind) .root [.field f.responseKey] f.fields members
  | .host h s => ∀ key, h.field.type.key? = some key → s.registry.isComposite key →
      (e.execution s cancelled).Carries [.field f.responseKey] f.fields v

theorem value_resolveRootField (e : Engine) (cancelled : Bool) (kind : RootKind) (f : RootField) :
    (e.resolveRootField cancelled kind f).value = .null ∨
      (e.rootValue cancelled kind f [.field f.responseKey]).Gives
        (.ok (e.resolveRootField cancelled kind f).value) := by
  have hvalue : (e.resolveRootField cancelled kind f).value =
      (RootResult.ofResolver e.exposure [.field f.responseKey]
        (e.rootValue cancelled kind f [.field f.responseKey])).value := by
    rw [resolveRootField]
    cases f.target <;> rfl
  rw [hvalue, RootResult.ofResolver]
  rcases hrun : (e.rootValue cancelled kind f [.field f.responseKey]).run.run []
    with ⟨error | v, log⟩
  · exact .inl rfl
  · exact .inr ⟨[], log, hrun⟩

theorem rootShows_resolveRootField (e : Engine) (cancelled : Bool) (kind : RootKind)
    (f : RootField) : e.RootShows cancelled kind f (e.resolveRootField cancelled kind f).value := by
  rw [RootShows]
  have hvalue := value_resolveRootField e cancelled kind f
  cases htarget : f.target with
  | typename =>
    simp only [resolveRootField, rootValue, htarget]
    rfl
  | service s =>
    rcases hvalue with hnull | hgives
    · exact .inl hnull
    · right
      rw [rootValue] at hgives
      simp only [htarget] at hgives
      cases kind with
      | query =>
        obtain ⟨_, _, hgives⟩ := Resolver.gives_bind_ok hgives
        exact Execution.shows_of_resolveObject hgives
      | mutation => exact Execution.shows_of_resolveObject hgives
  | host h s =>
    intro key hk hc
    rcases hvalue with hnull | hgives
    · rw [hnull]
      exact .null _ f.fields
    · rw [rootValue] at hgives
      simp only [htarget] at hgives
      obtain ⟨_, _, hgives⟩ := Resolver.gives_bind_ok hgives
      exact Execution.carries_of_resolveValue hk hc hgives

/-- The response to an accepted request has each response key once, there and in every object below.
The value is that of the last selection with the key that applies, and an object in it has what this
selection selects and nothing else. -/
theorem execute_shows_last {request : RawRequest} {operation : Operation} (cancelled : Bool)
    (h : (Operation.ofRequest e request).run = some (.ok operation)) :
    ∃ response events data, e.execute request cancelled = some (response, events) ∧
      response.data = some data ∧
      data.map Prod.fst = (operation.fields.map (·.responseKey)).eraseDups ∧
      ∀ key f v, last? (·.responseKey) key operation.fields = some f → data.get? key = some v →
        v = (e.resolveRootField cancelled operation.kind f).value ∧
        e.RootShows cancelled operation.kind f v := by
  let Resolved (f : RootField) (v : Json) : Prop :=
    v = (e.resolveRootField cancelled operation.kind f).value
  have hall : List.Forall₂ (fun f m => m.1 = f.responseKey ∧ Resolved f m.2) operation.fields
      (operation.fields.map fun f =>
        (f.responseKey, (e.resolveRootField cancelled operation.kind f).value)) := by
    rw [List.forall₂_map_right_iff, List.forall₂_same]
    exact fun f _ => ⟨rfl, rfl⟩
  refine ⟨(e.resolveOperation cancelled operation).1, (e.resolveOperation cancelled operation).2,
    Json.Members.ofList _, by rw [execute, h]; rfl, rfl, ?_, ?_⟩
  · rw [List.map_map, Json.Members.map_fst_ofList]
    exact congrArg List.eraseDups (map_fst_of_forall₂ (R := Resolved) hall)
  · intro key f v hf hv
    rw [List.map_map] at hv
    have hvalue := of_last?_of_get? (R := Resolved) hall hf hv
    refine ⟨hvalue, ?_⟩
    rw [hvalue]
    exact rootShows_resolveRootField e cancelled operation.kind f

end Engine

/-! The same field selected twice. -/

namespace Twice

def request : RawRequest where
  query := "{zoo{__typename} zoo{kind:__typename}}"

def first : Graphql.Selection := .field "__typename" "__typename" [] [] []

def second : Graphql.Selection := .field "kind" "__typename" [] [] []

def document : Graphql.Document where
  operations := .anonymous {
    kind := .query
    selections := [.field "zoo" "zoo" [] [] [first], .field "zoo" "zoo" [] [] [second]] }
  fragments := ∅

def opened : OpenedOperation where
  env := ⟨∅, ∅⟩
  kind := .query
  fields := [⟨"zoo", "zoo", [], [first], []⟩, ⟨"zoo", "zoo", [], [second], []⟩]

def service : ExposedService := { registry := Circular.registry }

def engine : Engine := Circular.engine fun _ _ => .error .connection

def operation : Operation where
  kind := .query
  fields := [
    { responseKey := "zoo", target := .service service
      fields := [{ responseKey := "__typename", name := "__typename" }] },
    { responseKey := "zoo", target := .service service
      fields := [{ responseKey := "kind", name := "__typename" }] }]

theorem parse_request : Graphql.Document.parse request.query = .ok document := by
  decide +kernel

theorem ofRequest_request :
    (Operation.ofRequest engine request).run = some (.ok operation) := by
  have hopened : OpenedOperation.ofRequest request = .ok opened := by
    rw [OpenedOperation.ofRequest, parse_request]
    rfl
  exact Operation.ofOpened_extends_ofRequest hopened 1 _ rfl

/-- Both are resolved, and only the second one shows. -/
theorem execute_request : ∃ events, engine.execute request = some (
    { data := some [("zoo", .object [("kind", .string "zoo")])] }, events) := by
  rw [Engine.execute, ofRequest_request]
  exact ⟨_, rfl⟩

end Twice

/-- Selections of one service under one response key are not merged. -/
theorem not_forall_merged :
    ¬ ∀ (e : Engine) (request : RawRequest) (operation : Operation) (response : Response)
      (events : List EngineEvent) (data : Json.Members),
      (Operation.ofRequest e request).run = some (.ok operation) →
      e.execute request = some (response, events) → response.data = some data →
      ∀ f ∈ operation.fields, ∀ g ∈ operation.fields, ∀ s, f.target = .service s →
      g.target = .service s → f.arguments = g.arguments → f.responseKey = g.responseKey →
      ∀ members, data.get? f.responseKey = some (.object members) →
      ∀ t ∈ f.fields ++ g.fields, t.responseKey ∈ members.map Prod.fst := by
  intro h
  obtain ⟨events, hexecute⟩ := Twice.execute_request
  have hmerged := h Twice.engine Twice.request Twice.operation _ _ _ Twice.ofRequest_request
    hexecute rfl _ List.mem_cons_self _ (List.mem_cons_of_mem _ List.mem_cons_self)
    Twice.service rfl rfl rfl rfl _ rfl _ List.mem_cons_self
  revert hmerged
  decide

/-- The request that selects the same field twice, with its second selection's members. -/
theorem execute_shows_last_of_twice :
    (Operation.ofRequest Twice.engine Twice.request).run = some (.ok Twice.operation) ∧
    ∃ response events data, Twice.engine.execute Twice.request false = some (response, events) ∧
      response.data = some data ∧
      data.map Prod.fst = (Twice.operation.fields.map (·.responseKey)).eraseDups ∧
      ∀ key f v, last? (·.responseKey) key Twice.operation.fields = some f →
        data.get? key = some v →
        v = (Twice.engine.resolveRootField false .query f).value ∧
        Twice.engine.RootShows false .query f v :=
  ⟨Twice.ofRequest_request, Engine.execute_shows_last false Twice.ofRequest_request⟩

end ODataGraph
