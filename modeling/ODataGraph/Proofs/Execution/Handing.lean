import ODataGraph.Proofs.Execution.Outcome

/-!
Which objects a value hands on to be resolved further: those in a value that is there already, and
those that a service returns. Each of them stands where the type of its field has a name.
-/

namespace ODataGraph

namespace Selection

/-- What holds of a selection when it holds of all selections below it holds of every selection. -/
theorem induction_below {motive : Selection → Prop}
    (h : ∀ s, (∀ t ∈ s.fields, motive t) → motive s) (s : Selection) : motive s :=
  h s fun t ht =>
    have : sizeOf t < sizeOf s := by
      cases s
      have hlt := List.sizeOf_lt_of_mem ht
      simp only [mk.sizeOf_spec] at hlt ⊢
      omega
    induction_below h t
termination_by s

end Selection

namespace Decoded

variable {r : Registry} {type : TypeReference} {payload : Payload} {url : String}

theorem entityOf_eq_ok_iff {key : String} {value : Json} {origin : Option String} {e : Entity} :
    entityOf r key value origin = .ok e ↔
      ∃ data, value = .object data ∧ Entity.materialize r key data origin = .ok e := by
  cases value <;> simp [entityOf]

theorem cases_ofPayload {decoded : Decoded}
    (h : ofPayload r type payload url false = .ok decoded) :
    (∃ key items entities, type.isList = true ∧ type.key? = some key ∧ r.isComposite key ∧
      Json.collection? payload.text = some items ∧
      items.mapM (entityOf r key · none) = .ok entities ∧ decoded = .entities entities) ∨
    (∃ key body e, type.isList = false ∧ type.key? = some key ∧ r.isComposite key ∧
      Json.parse? payload.text = some body ∧ entityOf r key body (some url) = .ok e ∧
      decoded = .entity e) ∨
    (type.key? = none ∧ decoded = .text payload.text) := by
  rw [ofPayload] at h
  split at h
  case isTrue hlist =>
    split at h
    case h_1 key hkey =>
      rw [Option.filter_eq_some_iff] at hkey
      rw [collection] at h
      cases hitems : Json.collection? payload.text with
      | none =>
        rw [hitems] at h
        cases h
      | some items =>
        rw [hitems] at h
        cases hentities : items.mapM (entityOf r key · none) with
        | error error =>
          simp only [hentities] at h
          cases h
        | ok entities =>
          simp only [hentities] at h
          cases h
          have hlist : type.isList = true := by simpa using hlist
          exact .inl ⟨key, items, entities, hlist, hkey.1, hkey.2, rfl, hentities, rfl⟩
    case h_2 => cases h
  case isFalse hlist =>
    split at h
    case h_1 key hkey =>
      split at h
      case isTrue hc =>
        split at h
        case h_1 body hbody =>
          cases he : entityOf r key body (some url) with
          | error error =>
            rw [he] at h
            cases h
          | ok e =>
            rw [he] at h
            cases h
            have hk : type.key? = some key := by rw [TypeReference.key?, hkey]
            have hlist : type.isList = false := by simpa using hlist
            exact .inr (.inl ⟨key, body, e, hlist, hk, hc, hbody, he, rfl⟩)
        case h_2 => cases h
      case isFalse => cases h
    case h_2 hstring =>
      cases h
      exact .inr (.inr ⟨by rw [TypeReference.key?, hstring], rfl⟩)
    case h_3 => cases h

/-- A single object is read from the whole body. -/
theorem ofPayload_of_object {key : String} {data : Json.Members} {e : Entity}
    (hlist : type.isList = false) (hkey : type.underlying = .named key)
    (hc : r.isComposite key = true) (hbody : Json.parse? payload.text = some (.object data))
    (he : Entity.materialize r key data (some url) = .ok e) :
    ofPayload r type payload url false = .ok (.entity e) := by
  have hone : ¬ (type.isList = true ∨ false = true) := by
    rw [hlist]
    decide
  rw [ofPayload, if_neg hone, hkey]
  dsimp only
  rw [if_pos hc, hbody]
  dsimp only
  rw [entityOf, he]
  rfl

end Decoded

/-- Where the value of a field is. -/
inductive Source where
  | nowhere
  | inline (value : Json)
  | remote (resource : String) (call : Url.CallStyle)
  | unresolvable

/-- What is requested under an entity. -/
def Entity.source (e : Entity) (call : Url.CallStyle) : Source :=
  match e.resourceUrl with
  | some resource => .remote resource call
  | none => .nowhere

/-- Where an object's value of a field is, in its data or at its service. -/
def Field.source (service : Service) (f : Field) (name : String) (parent : Parent) : Source :=
  match f.kind, parent with
  | .placeholder, _ => .nowhere
  | .entitySet, _ => .remote service.baseUrl .segment
  | .singleton, _ => .remote service.baseUrl .segment
  | .property, .entity e => .inline ((e.data.get? name).getD .null)
  | .navigation, .entity e =>
    match e.data.get? name with
    | some value => .inline value
    | none => e.source .segment
  | .function, .entity e => e.source .function
  | .rawValue, .entity e => e.source .segment
  | _, .root => .unresolvable

namespace Execution

variable {x : Execution} {o : ObjectType} {parent : Parent} {path : Path} {s : Selection}
variable {f : Field} {onEntity : Entity → Path → Resolver Json}

theorem fieldValue_eq (hname : s.name ≠ typenameField) (hf : o.fields.get? s.name = some f) :
    x.fieldValue o parent s path onEntity = match f.source x.service s.name parent with
      | .nowhere => pure .null
      | .inline value => completeValue x.registry onEntity f.type value path
      | .remote resource call => x.fetch resource s f call path onEntity
      | .unresolvable => throw (.unresolvableField o.name s.name) := by
  rw [fieldValue, if_neg hname]
  simp only [hf]
  cases hk : f.kind <;> cases parent <;> simp only [Field.source, hk, Entity.source]
  case navigation.entity e =>
    cases e.data.get? s.name with
    | some value => rfl
    | none => cases e.resourceUrl <;> rfl
  case function.entity e => cases e.resourceUrl <;> rfl
  case rawValue.entity e => cases e.resourceUrl <;> rfl

theorem resolveField_eq (x : Execution) (o : ObjectType) (parent : Parent) (path : Path)
    (s : Selection) : x.resolveField o parent path s =
      Resolver.recover x.exposure path (x.fieldValue o parent s path (x.resolveEntity s.fields)) := by
  cases s
  rw [resolveField]
  rfl

end Execution

end ODataGraph
