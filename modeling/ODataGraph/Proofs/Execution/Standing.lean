import ODataGraph.Proofs.Execution.Handing

/-!
The objects that are resolved while a field is, each with the type that is declared where it stands.
A field that is missing at run time is missing on one of them.
-/

namespace ODataGraph

namespace Entity

variable {r : Registry} {declared : String} {data : Json.Members}

/-- The type of an object: the registered one that it names, or the one that is declared. -/
inductive Names (r : Registry) (declared : String) (data : Json.Members) : String → Prop
  | declared (h : ∀ odataType, (data.get? typeMember).bind Json.string? = some odataType →
      r.get? (discriminatorKey odataType) = none) : Names r declared data declared
  | named {odataType : String} {t : Descriptor}
      (h : (data.get? typeMember).bind Json.string? = some odataType)
      (ht : r.get? (discriminatorKey odataType) = some t) :
      Names r declared data (discriminatorKey odataType)

theorem names_of_typeOf {key : String} (h : typeOf r declared data = .ok key) :
    Names r declared data key := by
  rw [typeOf] at h
  split at h
  · rename_i hnone
    cases h
    apply Names.declared
    intro odataType hodata
    cases hnone.symm.trans hodata
  · rename_i odataType hodata
    dsimp only at h
    split at h
    · cases h
    · rename_i t _ ht
      obtain rfl := Except.ok.inj h
      exact .named hodata ht
    · rename_i hnone
      cases h
      apply Names.declared
      intro other hother
      cases hodata.symm.trans hother
      exact hnone

theorem cases_materialize {origin : Option String} {e : Entity}
    (h : materialize r declared data origin = .ok e) :
    ∃ key o, Names r declared data key ∧ r.concreteObject? key = some (e.typeKey, o) ∧
      e.typeName = o.name := by
  rw [materialize] at h
  cases hkey : typeOf r declared data with
  | error error =>
    rw [hkey] at h
    cases h
  | ok key =>
    rw [hkey] at h
    dsimp only [bind, Except.bind] at h
    split at h
    · rename_i typeKey o _ ho
      cases h
      exact ⟨key, o, names_of_typeOf hkey, ho, rfl⟩
    · cases h

end Entity

/-- An object of a service where a type is declared, with what is selected on it. -/
structure Standing where
  declared : String
  data : Json.Members
  origin : Option String
  path : Path
  fields : List Selection

/-- The object as it is typed. -/
def Standing.entity (r : Registry) (st : Standing) : Except FieldError Entity :=
  Entity.materialize r st.declared st.data st.origin

/-- An object in a value, where its type is declared. -/
inductive Json.Holds (r : Registry) (fields : List Selection) :
    TypeReference → Json → Path → Standing → Prop
  | named {key : String} {data : Json.Members} {path : Path} (hc : r.isComposite key) :
      Holds r fields (.named key) (.object data) path ⟨key, data, none, path, fields⟩
  | nonNull {type : TypeReference} {value : Json} {path : Path} {st : Standing}
      (h : Holds r fields type value path st) : Holds r fields (.nonNull type) value path st
  | item {type : TypeReference} {items : List Json} {path : Path} {st : Standing} {i : Nat}
      {item : Json} (hi : items[i]? = some item)
      (h : Holds r fields type item (path ++ [.index i]) st) :
      Holds r fields (.list type) (.array items) path st

theorem Json.Holds.declared {r : Registry} {fields : List Selection} {type : TypeReference}
    {value : Json} {path : Path} {st : Standing} (h : Json.Holds r fields type value path st) :
    type.key? = some st.declared ∧ st.fields = fields := by
  induction h with
  | named => exact ⟨rfl, rfl⟩
  | nonNull _ ih => exact ih
  | item _ _ ih => exact ih

/-- An object in a payload from a URL. -/
inductive Payload.Holds (r : Registry) (fields : List Selection) (type : TypeReference)
    (payload : Payload) (url : String) (path : Path) : Standing → Prop
  | item {key : String} {items : List Json} {i : Nat} {data : Json.Members}
      (hlist : type.isList = true) (hk : type.key? = some key) (hc : r.isComposite key)
      (hitems : Json.collection? payload.text = some items) (hi : items[i]? = some (.object data)) :
      Holds r fields type payload url path ⟨key, data, none, path ++ [.index i], fields⟩
  | whole {key : String} {data : Json.Members}
      (hlist : type.isList = false) (hk : type.key? = some key) (hc : r.isComposite key)
      (hbody : Json.parse? payload.text = some (.object data)) :
      Holds r fields type payload url path ⟨key, data, some url, path, fields⟩

namespace Execution

variable {x : Execution} {o : ObjectType} {parent : Parent} {path : Path} {s : Selection}

/-- An object that a selection has in its value: one in the data of the entity that it is selected
on, or one that the service answers. -/
inductive Hands (x : Execution) (o : ObjectType) (parent : Parent) (path : Path) (s : Selection) :
    Standing → Prop
  | inline {f : Field} {value : Json} {st : Standing} (hname : s.name ≠ typenameField)
      (hf : o.fields.get? s.name = some f)
      (hsource : f.source x.service s.name parent = .inline value)
      (h : Json.Holds x.registry s.fields f.type value path st) : Hands x o parent path s st
  | remote {f : Field} {resource : String} {call : Url.CallStyle} {payload : Payload}
      {st : Standing} (hname : s.name ≠ typenameField) (hf : o.fields.get? s.name = some f)
      (hsource : f.source x.service s.name parent = .remote resource call)
      (hget : (x.get path s.name (fieldUrl x.registry resource s f call)).Gives
        (.ok (some payload)))
      (h : Payload.Holds x.registry s.fields f.type payload
        (fieldUrl x.registry resource s f call) path st) : Hands x o parent path s st

/-- An object stands where the type of the selected field is declared. -/
theorem Hands.declared {st : Standing} (h : x.Hands o parent path s st) :
    s.name ≠ typenameField ∧ st.fields = s.fields ∧
      ∃ f, o.fields.get? s.name = some f ∧ f.type.key? = some st.declared := by
  cases h with
  | inline hname hf _ h => exact ⟨hname, h.declared.2, _, hf, h.declared.1⟩
  | remote hname hf _ _ h =>
    cases h with
    | item _ hk => exact ⟨hname, rfl, _, hf, hk⟩
    | whole _ hk => exact ⟨hname, rfl, _, hf, hk⟩

/-- One object is resolved for a selection on another one. -/
def Next (x : Execution) (st st' : Standing) : Prop :=
  ∃ e o s, st.entity x.registry = .ok e ∧ x.registry.object? e.typeKey = some o ∧ s ∈ st.fields ∧
    s.appliesTo e.typeKey = true ∧
    x.Hands o (.entity e) (st.path ++ [.field s.responseKey]) s st'

end Execution

end ODataGraph
