import ODataGraph.Proofs.Execution.Standing
import ODataGraph.Proofs.Registry.Contribution
import ODataGraph.Proofs.Sequence

/-!
Errors about a field that an object does not have. Nothing but the look-up of a field, or of the
object that should have it, ends in one, so that it shows on an object that is resolved.
-/

namespace ODataGraph

open Relation (ReflTransGen)

/-- A field, or the object that should have it, is missing. -/
def FieldError.isMiss : FieldError → Bool
  | .unresolvableField .. | .missingObject _ => true
  | _ => false

section

variable {error : FieldError} {r : Registry}

theorem Entity.not_isMiss_of_materialize {declared : String} {data : Json.Members}
    {origin : Option String} (h : materialize r declared data origin = .error error) :
    error.isMiss = false := by
  rw [materialize] at h
  cases hkey : typeOf r declared data with
  | error e =>
    rw [hkey] at h
    cases h
    rw [typeOf] at hkey
    split at hkey
    · cases hkey
    · dsimp only at hkey
      split at hkey
      · cases hkey
        rfl
      · cases hkey
      · cases hkey
  | ok key =>
    rw [hkey] at h
    dsimp only [bind, Except.bind] at h
    split at h
    · cases h
    · cases h
      rfl

theorem Decoded.not_isMiss_of_entityOf {key : String} {value : Json} {url : Option String}
    (h : entityOf r key value url = .error error) : error.isMiss = false := by
  cases value with
  | object data => exact Entity.not_isMiss_of_materialize h
  | _ =>
    cases h
    rfl

theorem Decoded.not_isMiss_of_ofPayload {type : TypeReference} {payload : Payload} {url : String}
    (h : ofPayload r type payload url false = .error error) : error.isMiss = false := by
  rw [ofPayload] at h
  split at h
  case isTrue =>
    split at h
    case h_1 key _ =>
      rw [collection] at h
      cases hitems : Json.collection? payload.text with
      | none =>
        rw [hitems] at h
        cases h
        rfl
      | some items =>
        rw [hitems] at h
        cases hentities : items.mapM (entityOf r key · none) with
        | error e =>
          simp only [hentities] at h
          cases h
          obtain ⟨item, _, hitem⟩ := exists_of_mapM_error hentities
          exact not_isMiss_of_entityOf hitem
        | ok entities =>
          simp only [hentities] at h
          cases h
    case h_2 =>
      cases h
      rfl
  case isFalse =>
    split at h
    case h_1 key _ =>
      split at h
      case isTrue =>
        split at h
        case h_1 body _ =>
          cases he : entityOf r key body (some url) with
          | error e =>
            rw [he] at h
            cases h
            exact not_isMiss_of_entityOf he
          | ok e =>
            rw [he] at h
            cases h
        case h_2 =>
          cases h
          rfl
      case isFalse =>
        cases h
        rfl
    case h_2 => cases h
    case h_3 =>
      cases h
      rfl

theorem Resolver.not_isMiss_of_hook {α : Type} {answer : Except HookError α}
    (h : (lift (answer.mapError .hook)).Gives (.error error)) : error.isMiss = false := by
  rw [gives_lift] at h
  cases answer with
  | error e =>
    cases h
    rfl
  | ok a => cases h

theorem Payload.not_isMiss_of_ofResponse {url : String} {response : Http.Response}
    (h : ofResponse url response = .error error) : error.isMiss = false := by
  rw [ofResponse] at h
  split at h
  · split at h
    · split at h <;> cases h
    · cases h
  · dsimp only at h
    split at h
    · cases h
      rfl
    · cases h
      rfl

namespace Execution

variable {x : Execution} {path : Path} {name url : String}

theorem not_isMiss_of_preParse {typeName : String}
    (h : (x.preParse path name typeName).Gives (.error error)) : error.isMiss = false := by
  rw [preParse] at h
  split at h
  · rcases Resolver.gives_bind_error h with h | ⟨_, _, h⟩
    · rw [Resolver.gives_log] at h
      cases h
    · exact Resolver.not_isMiss_of_hook h
  · rw [Resolver.gives_pure] at h
    cases h

theorem not_isMiss_of_preRequest {request : Http.Request}
    (h : (x.preRequest path name request).Gives (.error error)) : error.isMiss = false := by
  rw [preRequest] at h
  split at h
  · rcases Resolver.gives_bind_error h with h | ⟨_, _, h⟩
    · rw [Resolver.gives_log] at h
      cases h
    · exact Resolver.not_isMiss_of_hook h
  · rw [Resolver.gives_pure] at h
    cases h

theorem not_isMiss_of_get (h : (x.get path name url).Gives (.error error)) :
    error.isMiss = false := by
  rw [get] at h
  rcases Resolver.gives_bind_error h with h | ⟨request?, _, h⟩
  · exact not_isMiss_of_preRequest h
  cases request? with
  | none =>
    rw [Resolver.gives_pure] at h
    cases h
  | some request =>
    dsimp only at h
    split at h
    · rcases Resolver.gives_bind_error h with h | ⟨_, h, _⟩
      · rw [Resolver.gives_throw] at h
        cases h
        rfl
      · rw [Resolver.gives_throw] at h
        cases h
    split at h
    · rcases Resolver.gives_bind_error h with h | ⟨_, h, _⟩
      · rw [Resolver.gives_throw] at h
        cases h
        rfl
      · rw [Resolver.gives_throw] at h
        cases h
    rcases Resolver.gives_bind_error h with h | ⟨_, _, h⟩
    · rw [Resolver.gives_log] at h
      cases h
    rcases Resolver.gives_bind_error h with h | ⟨response, _, h⟩
    · rw [Resolver.gives_lift] at h
      cases hsend : x.client path request with
      | error fault =>
        rw [hsend] at h
        cases h
        rfl
      | ok response =>
        rw [hsend] at h
        cases h
    rcases Resolver.gives_bind_error h with h | ⟨payload, _, h⟩
    · rw [Resolver.gives_lift] at h
      exact Payload.not_isMiss_of_ofResponse h.symm
    · rw [Resolver.gives_pure] at h
      cases h

end Execution

end

namespace Execution

variable {x : Execution} {o : ObjectType} {parent : Parent} {path : Path} {s : Selection}
variable {fields : List Selection} {error : FieldError}

section

variable {onEntity : Entity → Path → Resolver Json}

/-- An object of a standing is resolved with an error. -/
def FailsAt (x : Execution) (onEntity : Entity → Path → Resolver Json) (error : FieldError)
    (st : Standing) : Prop :=
  ∃ e, st.entity x.registry = .ok e ∧ (onEntity e st.path).Gives (.error error)

theorem exists_failsAt_of_completeValue {type : TypeReference} {value : Json}
    (hmiss : error.isMiss = true)
    (h : (completeValue x.registry onEntity type value path).Gives (.error error)) :
    ∃ st, Json.Holds x.registry fields type value path st ∧ x.FailsAt onEntity error st := by
  induction type generalizing value path with
  | scalar type =>
    cases value <;> simp only [completeValue, Resolver.gives_pure] at h <;> cases h
  | named name =>
    cases value with
    | object data =>
      rw [completeValue] at h
      split at h
      · rename_i hc
        rcases Resolver.gives_bind_error h with h | ⟨e, he, h⟩
        · rw [Resolver.gives_lift] at h
          rw [Entity.not_isMiss_of_materialize h.symm] at hmiss
          cases hmiss
        · rw [Resolver.gives_lift] at he
          exact ⟨_, .named hc, e, he.symm, h⟩
      · rw [Resolver.gives_pure] at h
        cases h
    | null =>
      simp only [completeValue, Resolver.gives_pure] at h
      cases h
    | _ =>
      simp only [completeValue] at h
      split at h <;> rw [Resolver.gives_pure] at h <;> cases h
  | list element ih =>
    cases value with
    | array items =>
      rw [completeValue] at h
      rcases Resolver.gives_bind_error h with h | ⟨_, _, h⟩
      · obtain ⟨item, i, hi, h⟩ := Resolver.gives_zipIdx_mapM_error h
        obtain ⟨st, hst, hfails⟩ := ih h
        exact ⟨st, .item hi hst, hfails⟩
      · rw [Resolver.gives_pure] at h
        cases h
    | _ =>
      simp only [completeValue, Resolver.gives_pure] at h
      cases h
  | nonNull type ih =>
    cases value with
    | null =>
      simp only [completeValue, Resolver.gives_pure] at h
      cases h
    | _ =>
      rw [completeValue] at h
      · obtain ⟨st, hst, hfails⟩ := ih h
        exact ⟨st, .nonNull hst, hfails⟩
      · rintro ⟨⟩

theorem exists_failsAt_of_fetch {resource : String} {f : Field} {call : Url.CallStyle}
    (hmiss : error.isMiss = true)
    (h : (x.fetch resource s f call path onEntity).Gives (.error error)) :
    ∃ payload st, (x.get path s.name (fieldUrl x.registry resource s f call)).Gives
        (.ok (some payload)) ∧
      Payload.Holds x.registry fields f.type payload (fieldUrl x.registry resource s f call) path
        st ∧ x.FailsAt onEntity error st := by
  rw [fetch] at h
  rcases Resolver.gives_bind_error h with h | ⟨_, _, h⟩
  · rw [preParseField] at h
    split at h
    · rw [not_isMiss_of_preParse h] at hmiss
      cases hmiss
    · rw [Resolver.gives_pure] at h
      cases h
  rcases Resolver.gives_bind_error h with h | ⟨payload?, hget, h⟩
  · rw [not_isMiss_of_get h] at hmiss
    cases hmiss
  cases payload? with
  | none =>
    rw [Resolver.gives_pure] at h
    cases h
  | some payload =>
    rcases Resolver.gives_bind_error h with h | ⟨decoded, hdecoded, h⟩
    · rw [Resolver.gives_lift] at h
      rw [Decoded.not_isMiss_of_ofPayload h.symm] at hmiss
      cases hmiss
    rw [Resolver.gives_lift] at hdecoded
    refine ⟨payload, ?_⟩
    rcases Decoded.cases_ofPayload hdecoded.symm with
      ⟨key, items, entities, hlist, hk, hc, hitems, hentities, rfl⟩ |
      ⟨key, body, e, hlist, hk, hc, hbody, he, rfl⟩ | ⟨_, rfl⟩
    · rw [completeDecoded] at h
      rcases Resolver.gives_bind_error h with h | ⟨_, _, h⟩
      · obtain ⟨e, i, hi, h⟩ := Resolver.gives_zipIdx_mapM_error h
        obtain ⟨item, hitem, he⟩ := exists_getElem?_of_mapM_ok hentities hi
        obtain ⟨data, rfl, he⟩ := Decoded.entityOf_eq_ok_iff.1 he
        exact ⟨_, hget, .item hlist hk hc hitems hitem, e, he, h⟩
      · rw [Resolver.gives_pure] at h
        cases h
    · obtain ⟨data, rfl, he⟩ := Decoded.entityOf_eq_ok_iff.1 he
      exact ⟨_, hget, .whole hlist hk hc hbody, e, he, h⟩
    · rw [completeDecoded, Resolver.gives_pure] at h
      cases h

theorem exists_failsAt_of_fieldValue (hmiss : error.isMiss = true)
    (h : (x.fieldValue o parent s path onEntity).Gives (.error error)) :
    (s.name ≠ typenameField ∧ ∀ f, o.fields.get? s.name = some f →
      f.source x.service s.name parent = .unresolvable) ∨
    ∃ st, x.Hands o parent path s st ∧ x.FailsAt onEntity error st := by
  by_cases hname : s.name = typenameField
  · rw [fieldValue, if_pos hname, Resolver.gives_pure] at h
    cases h
  cases hf : o.fields.get? s.name with
  | none => exact .inl ⟨hname, fun f hf' => by cases hf'⟩
  | some f =>
    rw [fieldValue_eq hname hf] at h
    cases hsource : f.source x.service s.name parent with
    | nowhere =>
      rw [hsource, Resolver.gives_pure] at h
      cases h
    | inline value =>
      rw [hsource] at h
      obtain ⟨st, hst, hfails⟩ := exists_failsAt_of_completeValue hmiss h
      exact .inr ⟨st, .inline hname hf hsource hst, hfails⟩
    | remote resource call =>
      rw [hsource] at h
      obtain ⟨payload, st, hget, hst, hfails⟩ := exists_failsAt_of_fetch hmiss h
      exact .inr ⟨st, .remote hname hf hsource hget hst, hfails⟩
    | unresolvable =>
      refine .inl ⟨hname, fun f' hf' => ?_⟩
      cases hf'
      exact hsource

end

end Execution

/-- Where fields of a kind can be resolved. -/
def Parent.fits : Parent → FieldKind → Bool
  | .root, kind => kind.ofRoot
  | .entity _, kind => kind.ofEntity

/-- The object has the field that is selected, and its kind fits. -/
def Selection.ResolvesOn (s : Selection) (o : ObjectType) (parent : Parent) : Prop :=
  s.name ≠ typenameField → ∃ f, o.fields.get? s.name = some f ∧ parent.fits f.kind = true

/-- However the object is typed, that type is registered and has all fields that apply to it. -/
def Standing.Covered (x : Execution) (st : Standing) : Prop :=
  ∀ e, st.entity x.registry = .ok e → ∃ o, x.registry.object? e.typeKey = some o ∧
    ∀ s ∈ st.fields, s.appliesTo e.typeKey = true → s.ResolvesOn o (.entity e)

theorem Entity.source_ne_unresolvable (e : Entity) (call : Url.CallStyle) :
    e.source call ≠ .unresolvable := by
  rw [source]
  split <;> rintro ⟨⟩

/-- Everything has a way to its value but what only entities have, at a root. -/
theorem Field.fits_of_source {service : Service} {f : Field} {name : String} {parent : Parent}
    (h : f.source service name parent = .unresolvable) : parent.fits f.kind = false := by
  unfold source at h
  cases parent with
  | root =>
    cases hk : f.kind <;> rw [hk] at h
    case property | navigation | function | rawValue => rfl
    all_goals cases h
  | entity e =>
    cases hk : f.kind <;> rw [hk] at h
    case navigation =>
      dsimp only at h
      split at h
      · cases h
      · exact absurd h (e.source_ne_unresolvable _)
    case function | rawValue => exact absurd h (e.source_ne_unresolvable _)
    all_goals cases h

namespace Execution

variable {x : Execution} {o : ObjectType} {parent : Parent} {path : Path} {s : Selection}
variable {fields : List Selection} {error : FieldError} {st : Standing}

theorem exists_of_resolveFields_error
    (h : (x.resolveFields o parent path fields).Gives (.error error)) :
    ∃ s ∈ fields, parent.selects s = true ∧
      (x.resolveField o parent (path ++ [.field s.responseKey]) s).Gives (.error error) := by
  induction fields with
  | nil =>
    rw [resolveFields, Resolver.gives_pure] at h
    cases h
  | cons s rest ih =>
    have hrest : (x.resolveFields o parent path rest).Gives (.error error) →
        ∃ t ∈ s :: rest, parent.selects t = true ∧
          (x.resolveField o parent (path ++ [.field t.responseKey]) t).Gives (.error error) := by
      intro h
      obtain ⟨t, ht, hselects, hfails⟩ := ih h
      exact ⟨t, List.mem_cons_of_mem _ ht, hselects, hfails⟩
    rw [resolveFields] at h
    by_cases hs : parent.selects s = true
    · rw [if_pos hs] at h
      rcases Resolver.gives_bind_error h with h | ⟨_, _, h⟩
      · exact ⟨s, List.mem_cons_self, hs, h⟩
      rcases Resolver.gives_bind_error h with h | ⟨_, _, h⟩
      · exact hrest h
      · rw [Resolver.gives_pure] at h
        cases h
    · rw [if_neg hs] at h
      exact hrest h

theorem gives_resolveFields_of_resolveObject
    (h : (x.resolveObject o parent fields path).Gives (.error error)) :
    (x.resolveFields o parent path fields).Gives (.error error) := by
  rcases Resolver.gives_bind_error h with h | ⟨_, _, h⟩
  · exact h
  · rw [Resolver.gives_pure] at h
    cases h

/-- A miss below a selection: it has no field, or one of the objects below is not covered. -/
def Misses (x : Execution) (o : ObjectType) (parent : Parent) (path : Path) (s : Selection) : Prop :=
  ¬ s.ResolvesOn o parent ∨
    ∃ start st, x.Hands o parent path s start ∧ ReflTransGen x.Next start st ∧ ¬ st.Covered x

theorem exists_uncovered_of_failsAt {start : Standing}
    (hbelow : ∀ s ∈ start.fields, ∀ o parent path,
      (x.resolveField o parent path s).Gives (.error error) → x.Misses o parent path s)
    (h : x.FailsAt (x.resolveEntity start.fields) error start) :
    ∃ st, ReflTransGen x.Next start st ∧ ¬ st.Covered x := by
  by_cases hcovered : start.Covered x
  · obtain ⟨e, he, h⟩ := h
    obtain ⟨o, ho, hresolves⟩ := hcovered e he
    rw [resolveEntity, ho] at h
    obtain ⟨s, hs, hselects, h⟩ :=
      exists_of_resolveFields_error (gives_resolveFields_of_resolveObject h)
    rcases hbelow s hs o (.entity e) _ h with hnot | ⟨next, st, hnext, hway, huncovered⟩
    · exact absurd (hresolves s hs hselects) hnot
    · have hstep : x.Next start next := ⟨e, o, s, he, ho, hs, hselects, hnext⟩
      exact ⟨st, .head hstep hway, huncovered⟩
  · exact ⟨start, .refl, hcovered⟩

/-- By induction on what is selected: an error about a missing field comes from one. -/
theorem misses_of_resolveField (hmiss : error.isMiss = true) (s : Selection) :
    ∀ o parent path, (x.resolveField o parent path s).Gives (.error error) →
      x.Misses o parent path s := by
  induction s using Selection.induction_below with
  | h s ih =>
    intro o parent path h
    rw [resolveField_eq] at h
    rcases exists_failsAt_of_fieldValue hmiss (Resolver.gives_recover_error h) with
      ⟨hname, hsource⟩ | ⟨start, hstart, hfails⟩
    · refine .inl fun hresolves => ?_
      obtain ⟨f, hf, hfits⟩ := hresolves hname
      rw [Field.fits_of_source (hsource f hf)] at hfits
      cases hfits
    · right
      rw [← hstart.declared.2.1] at ih hfails
      obtain ⟨st, hway, huncovered⟩ := exists_uncovered_of_failsAt ih hfails
      exact ⟨start, st, hstart, hway, huncovered⟩

end Execution

end ODataGraph
