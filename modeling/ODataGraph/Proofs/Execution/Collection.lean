import ODataGraph.Proofs.Execution.CanonicalUrl
import ODataGraph.Proofs.Execution.RelativeRequest
import ODataGraph.Proofs.Json.Record

/-!
Collections that services answer with. They are read whole or not at all: the objects of a
collection become entities one by one, and if one of them cannot, there are none.
-/

namespace ODataGraph

namespace Decoded

variable {r : Registry} {type : TypeReference} {key : String} {items : List Json.Literal}
variable {entities : List Entity} {payload : Payload} {url : String} {decoded : Decoded}

/-- The objects that literals denote, typed as a registry knows them. They have their members as
data and come from nowhere. -/
def Typed (r : Registry) (key : String) (items : List Json.Literal) (entities : List Entity) :
    Prop :=
  List.Forall₂ (fun item e => ∃ data, item.valueAt? (Json.maxDepth - 2) = some (.object data) ∧
    Entity.materialize r key data none = .ok e ∧ e.data = data ∧ e.originUrl = none) items entities

/-- A text is a collection of objects that a registry types as entities: a record whose one field
`value` is an array of them. -/
def Gathers (r : Registry) (key : String) (text : String) (entities : List Entity) : Prop :=
  ∃ l items, Json.SpacedText text.toList l ∧ Json.Literal.HasField "value" (.array items) l ∧
    Typed r key items entities

theorem typed_iff : Typed r key items entities ↔
    ∃ values, List.Forall₂ (fun item v => item.valueAt? (Json.maxDepth - 2) = some v) items values ∧
      values.mapM (entityOf r key · none) = .ok entities := by
  simp only [mapM_eq_ok_iff, entityOf_eq_ok_iff]
  constructor
  · intro h
    induction h with
    | nil => exact ⟨[], .nil, .nil⟩
    | cons h _ ih =>
      obtain ⟨data, hdata, he, _⟩ := h
      obtain ⟨values, hvalues, hentities⟩ := ih
      exact ⟨.object data :: values, .cons hdata hvalues, .cons ⟨data, rfl, he⟩ hentities⟩
  · rintro ⟨values, hvalues, hentities⟩
    induction hvalues generalizing entities with
    | nil =>
      cases hentities
      exact .nil
    | cons hvalue _ ih =>
      cases hentities with
      | cons he hentities =>
        obtain ⟨data, rfl, he⟩ := he
        obtain ⟨horigin, hdata, _⟩ := Entity.originUrl_of_materialize he
        exact .cons ⟨data, hvalue, he, hdata, horigin⟩ (ih hentities)

theorem gathers_iff {text : String} : Gathers r key text entities ↔
    ∃ values, Json.collection? text = some values ∧
      values.mapM (entityOf r key · none) = .ok entities := by
  simp only [Gathers, typed_iff, Json.collection?_eq_some_iff]
  constructor
  · rintro ⟨l, items, hl, hfield, values, hvalues, hentities⟩
    exact ⟨values, ⟨l, items, hl, hfield, hvalues⟩, hentities⟩
  · rintro ⟨values, ⟨l, items, hl, hfield, hvalues⟩, hentities⟩
    exact ⟨l, items, hl, hfield, values, hvalues, hentities⟩

/-- What is wanted of the entities of a collection: all of them, or the first one. -/
def chosen (firstOnly : Bool) (entities : List Entity) : Decoded :=
  if firstOnly then
    match entities with
    | first :: _ => .entity first
    | [] => .nothing
  else .entities entities

theorem collection_eq_ok_iff {firstOnly : Bool} :
    collection r key payload firstOnly = .ok decoded ↔
      ∃ entities, Gathers r key payload.text entities ∧ decoded = chosen firstOnly entities := by
  simp only [gathers_iff, collection]
  cases Json.collection? payload.text with
  | none =>
    constructor
    · intro h
      cases h
    · rintro ⟨_, ⟨_, h, _⟩, _⟩
      cases h
  | some values =>
    rw [bind_eq_ok_iff]
    constructor
    · rintro ⟨entities, hentities, h⟩
      refine ⟨entities, ⟨values, rfl, hentities⟩, ?_⟩
      cases firstOnly <;> cases entities <;> cases h <;> rfl
    · rintro ⟨entities, ⟨_, ⟨⟩, hentities⟩, rfl⟩
      refine ⟨entities, hentities, ?_⟩
      cases firstOnly <;> cases entities <;> rfl

theorem ofPayload_list (hlist : type.isList = true) (hkey : type.key? = some key)
    (hc : r.isComposite key = true) (payload : Payload) (url : String) (firstOnly : Bool) :
    ofPayload r type payload url firstOnly = collection r key payload firstOnly := by
  rw [ofPayload, if_pos (.inl hlist), Option.filter_eq_some_iff.2 ⟨hkey, hc⟩]

/-- A list of objects or unions is read from a collection, whole or not at all, and so is the first
of them where no other is wanted. -/
theorem ofPayload_list_eq_ok_iff (hlist : type.isList = true) (hkey : type.key? = some key)
    (hc : r.isComposite key = true) (payload : Payload) (url : String) (firstOnly : Bool)
    (decoded : Decoded) :
    ofPayload r type payload url firstOnly = .ok decoded ↔
      ∃ entities, Gathers r key payload.text entities ∧ decoded = chosen firstOnly entities := by
  rw [ofPayload_list hlist hkey hc]
  exact collection_eq_ok_iff

end Decoded

/-! A collection of one pet, with something else beside it. -/

namespace Pets

def type : TypeReference := .list (.named "Pet")

def payload : Payload where
  text := "\x7b\"more\":null,\"value\":[\x7b\"id\":\"7\"\x7d]\x7d"

def units (s : String) : List Json.StringUnit := s.toList.map .char

def items : List Json.Literal := [.object [(units "id", .string (units "7"))]]

def literal : Json.Literal :=
  .object [(units "more", .null), (units "value", .array items)]

theorem spacedText_payload : Json.SpacedText payload.text.toList literal := by
  have hunits : ∀ s : String, (s.toList.all fun c => 0x20 ≤ c.toNat && c != '"' && c != '\\') =
      true → Json.UnitsText s.toList (units s) := by
    intro s hs
    refine Json.unitsText_map_char fun c hc => ?_
    simpa [and_assoc] using List.all_eq_true.1 hs c hc
  have hmember : ∀ {s : String} {cs l}, Json.UnitsText s.toList (units s) →
      Json.LiteralText cs l →
        Json.MemberText ('"' :: (s.toList ++ '"' :: ':' :: cs)) (units s, l) :=
    fun hs h => .mk Json.isBlank_nil hs Json.isBlank_nil (Json.spacedText_of_literalText h)
  have hid := hmember (hunits "id" (by decide)) (.string (hunits "7" (by decide)))
  have hpet := Json.spacedText_of_literalText (.object (.single hid))
  have hvalue := hmember (hunits "value" (by decide)) (.array (.single hpet))
  have hmore := hmember (hunits "more" (by decide)) .null
  exact Json.spacedText_of_literalText (.object (.cons hmore (.single hvalue)))

theorem hasField_literal : Json.Literal.HasField "value" (.array items) literal :=
  Json.Literal.lookup_record?_eq_some_iff.1 (by rfl)

theorem gathers_payload : Decoded.Gathers registry "Pet" payload.text [pet "7"] :=
  ⟨literal, items, spacedText_payload, hasField_literal,
    .cons ⟨_, rfl, materialize_pet "7", rfl, rfl⟩ .nil⟩

end Pets

theorem ofPayload_list_of_pets :
    Pets.type.isList = true ∧ Pets.type.key? = some "Pet" ∧
      Pets.registry.isComposite "Pet" = true ∧
      Decoded.ofPayload Pets.registry Pets.type Pets.payload "http://zoo.test/odata/Pets" false =
        .ok (.entities [Pets.pet "7"]) := by
  refine ⟨rfl, rfl, rfl, ?_⟩
  exact (Decoded.ofPayload_list_eq_ok_iff rfl rfl rfl _ _ _ _).2 ⟨_, Pets.gathers_payload, rfl⟩

/-- Not only objects are collections: an array of one array is one, too. -/
theorem not_forall_ofPayload_list_object : ¬ ∀ (service : Service) (d : Csdl.Document)
    (r : Registry) (type : TypeReference) (key : String) (payload : Payload) (url : String),
    Registry.build service d = .ok r → type.isList = true → type.key? = some key →
    r.isComposite key = true →
    ((∃ decoded, Decoded.ofPayload r type payload url false = .ok decoded) ↔
      ∃ before units items after entities, Json.SpacedText payload.text.toList
          (.object (before ++ (units, .array items) :: after)) ∧
        Json.StringUnit.text? units = some "value" ∧
        (∀ m ∈ before ++ after, Json.StringUnit.text? m.1 ≠ some "value") ∧
        Decoded.Typed r key items entities) := by
  intro h
  have hnested : Json.SpacedText "[[]]".toList (.array [.array []]) :=
    Json.spacedText_of_literalText (.array (.single
      (Json.spacedText_of_literalText (.emptyArray Json.isBlank_nil))))
  have hread : Decoded.ofPayload Pets.registry Pets.type ⟨"[[]]"⟩ "http://zoo.test/odata/Pets"
      false = .ok (.entities []) := by
    rw [@Decoded.ofPayload_list Pets.registry Pets.type "Pet" rfl rfl rfl,
      Decoded.collection_eq_ok_iff]
    exact ⟨[], ⟨_, [], hnested, .array, .nil⟩, rfl⟩
  obtain ⟨_, _, _, _, _, hobject, _⟩ := (h Kennel.service Pets.document Pets.registry Pets.type
    "Pet" ⟨"[[]]"⟩ "http://zoo.test/odata/Pets" Pets.build_document rfl rfl rfl).1 ⟨_, hread⟩
  cases (Json.Literal.ofText?_eq_some_iff.2 hnested).symm.trans
    (Json.Literal.ofText?_eq_some_iff.2 hobject)

end ODataGraph
