import ODataGraph.Proofs.Execution.RelativeRequest
import ODataGraph.Proofs.Execution.ResponseKeys
import ODataGraph.Proofs.Registry.FieldType

/-!
The shape of responses. A value of a field is as many lists deep as the field's type, and the
objects in it have the response keys of what is selected on their own type. Whatever has another
shape where it comes from ends in null or in an error.
-/

namespace ODataGraph

namespace Registry

/-- A selection on an object is one of a field with objects or unions, in lists of a depth. -/
structure Holds (r : Registry) (o : ObjectType) (s : Selection) (depth : Nat) : Prop where
  name : s.name ≠ typenameField
  field : ∃ f key, o.fields.get? s.name = some f ∧ f.type.depth = depth ∧
    f.type.key? = some key ∧ r.isComposite key = true

mutual

/-- Lists of a depth with objects in them. Nulls can stand in the place of each. -/
inductive Shaped (r : Registry) : Nat → List Selection → Json → Prop
  | null (depth : Nat) (fields : List Selection) : Shaped r depth fields .null
  | array {depth : Nat} {fields : List Selection} {items : List Json}
      (h : ∀ item ∈ items, Shaped r depth fields item) : Shaped r (depth + 1) fields (.array items)
  | object {fields : List Selection} {members : Json.Members} {key : String} {o : ObjectType}
      (ho : r.object? key = some o) (h : Conforms r key o fields members) :
      Shaped r 0 fields (.object members)

/-- The members of an object of a type have the response keys of those selections that the type
satisfies the condition of, in the order in which these come first. Of selections with one key the
last one counts: it is the name of the type, or is shaped like its field in turn. -/
inductive Conforms (r : Registry) :
    String → ObjectType → List Selection → Json.Members → Prop
  | intro {key : String} {o : ObjectType} {fields : List Selection} {members : Json.Members}
      (keys : members.map Prod.fst =
        ((fields.filter (·.appliesTo key)).map (·.responseKey)).eraseDups)
      (typename : ∀ name s v,
        last? (·.responseKey) name (fields.filter (·.appliesTo key)) = some s →
        members.get? name = some v → s.name = typenameField → v = .string o.name)
      (below : ∀ name s v,
        last? (·.responseKey) name (fields.filter (·.appliesTo key)) = some s →
        members.get? name = some v → ∀ depth, r.Holds o s depth → Shaped r depth s.fields v) :
      Conforms r key o fields members

end

end Registry

namespace Outline

variable {r : Registry} {type : TypeReference} {key : String} {depth : Nat}

/-- Lists of a depth with objects in them that are still to be resolved. -/
inductive Nests : Nat → Outline → Prop
  | null (depth : Nat) : Nests depth (.leaf .null)
  | failed (depth : Nat) (error : FieldError) (fatal : error.isRecoverable = false) :
      Nests depth (.failed error fatal)
  | entity (e : Entity) : Nests 0 (.entity e)
  | list {depth : Nat} {items : List Outline} (h : ∀ item ∈ items, Nests depth item) :
      Nests (depth + 1) (.list items)

theorem nests_ofObject (r : Registry) (key : String) (data : Json.Members) :
    (ofObject r key data).Nests 0 := by
  rw [ofObject]
  split
  · exact .entity _
  · exact .failed 0 _ _

/-- A value that is there already is as deep as its type. -/
theorem nests_ofValue (hk : type.key? = some key) (hc : r.isComposite key = true) (value : Json) :
    (ofValue r type value).Nests type.depth := by
  induction type generalizing value with
  | scalar s => cases hk
  | named name =>
    cases hk
    cases value with
    | object data =>
      rw [ofValue, if_pos hc]
      exact nests_ofObject r key data
    | _ =>
      simp only [ofValue, if_pos hc]
      exact .null 0
  | list element ih =>
    cases value with
    | array items =>
      rw [ofValue]
      apply Nests.list
      intro item hitem
      obtain ⟨value, _, rfl⟩ := List.mem_map.1 hitem
      exact ih hk value
    | _ =>
      simp only [ofValue]
      exact .null _
  | nonNull type ih =>
    cases value with
    | null =>
      rw [ofValue]
      exact .null _
    | _ =>
      rw [ofValue]
      · exact ih hk _
      · rintro ⟨⟩

/-- What a service returns is one list deep or none, as its type is. -/
theorem nests_ofDecoded {payload : Payload} {url : String} {decoded : Decoded}
    (hk : type.key? = some key) (hflat : type.depth ≤ 1)
    (h : Decoded.ofPayload r type payload url false = .ok decoded) :
    (ofDecoded decoded).Nests type.depth := by
  rcases Decoded.cases_ofPayload h with
    ⟨_, _, entities, hlist, _, _, _, _, rfl⟩ | ⟨_, _, e, hlist, _, _, _, _, rfl⟩ | ⟨hnone, _⟩
  · have hdepth : type.depth = 0 + 1 := by
      have hpos := TypeReference.isList_iff.1 hlist
      omega
    rw [hdepth, ofDecoded]
    apply Nests.list
    intro item hitem
    obtain ⟨e, _, rfl⟩ := List.mem_map.1 hitem
    exact .entity e
  · have hdepth : type.depth = 0 := by
      have hnot : ¬ 0 < type.depth := by
        rw [← TypeReference.isList_iff, hlist]
        exact Bool.false_ne_true
      omega
    rw [hdepth, ofDecoded]
    exact .entity e
  · rw [hk] at hnone
    cases hnone

theorem shaped_of_resolve {onEntity : Entity → Path → Resolver Json} {fields : List Selection}
    {outline : Outline} {path : Path} {v : Json}
    (hentity : ∀ e path v, (onEntity e path).Gives (.ok v) → r.Shaped 0 fields v)
    (hnests : outline.Nests depth) (h : (outline.resolve onEntity path).Gives (.ok v)) :
    r.Shaped depth fields v := by
  induction hnests generalizing path v with
  | null depth =>
    rw [resolve_leaf, Resolver.gives_pure] at h
    cases h
    exact .null depth fields
  | failed depth error fatal =>
    rw [resolve_failed, Resolver.gives_throw] at h
    cases h
  | entity e =>
    rw [resolve_entity] at h
    exact hentity e path v h
  | list _ ih =>
    rw [resolve_list] at h
    obtain ⟨values, rfl, hvalues⟩ := Resolver.exists_of_assemble_ok h
    apply Registry.Shaped.array
    intro item hitem
    obtain ⟨t, ht, h⟩ := hvalues item hitem
    obtain ⟨⟨outline, i⟩, houtline, rfl⟩ := List.mem_map.1 ht
    exact ih outline (List.fst_mem_of_mem_zipIdx houtline) h

end Outline

namespace Execution

variable {x : Execution} {o : ObjectType} {parent : Parent} {path : Path} {s : Selection}
variable {fields : List Selection} {depth : Nat} {v : Json}

/-- Whatever a field is found to be, its outline is as deep as its type. -/
theorem nests_of_read {found : Found} {outline : Outline} (hs : x.registry.Holds o s depth)
    (hflat : depth ≤ 1) (hfound : x.Finds o parent path s found)
    (hread : x.read path found = .ok outline) : outline.Nests depth := by
  obtain ⟨hname, f, key, hf, rfl, hk, hc⟩ := hs
  cases hfound with
  | typename htypename => exact absurd htypename hname
  | null =>
    cases hread
    exact .null _
  | missing error fatal =>
    cases hread
    exact .failed _ error fatal
  | inline _ hf' _ =>
    cases hf.symm.trans hf'
    cases hread
    exact Outline.nests_ofValue hk hc _
  | asked hcall _ =>
    cases hf.symm.trans hcall.field
    obtain ⟨payload, _, hread⟩ := bind_eq_ok_iff.1 hread
    obtain ⟨decoded, hdecoded, hread⟩ := bind_eq_ok_iff.1 hread
    cases hread
    exact Outline.nests_ofDecoded hk hflat hdecoded

theorem resolveField_typename (hname : s.name = typenameField) :
    x.resolveField o parent path s = pure (.string o.name) := by
  rw [resolveField_eq, fieldValue, if_pos hname]
  rfl

/-- The members of a resolved object. -/
theorem conforms_of_resolveFields {e : Entity} {pairs : List (String × Json)}
    (h : (x.resolveFields o (.entity e) path fields).Gives (.ok pairs))
    (hbelow : ∀ s ∈ fields, ∀ path v, (x.resolveField o (.entity e) path s).Gives (.ok v) →
      ∀ depth, x.registry.Holds o s depth → x.registry.Shaped depth s.fields v) :
    x.registry.Conforms e.typeKey o fields (Json.Members.ofList pairs) := by
  let Resolved (s : Selection) (v : Json) : Prop :=
    (x.resolveField o (.entity e) (path ++ [.field s.responseKey]) s).Gives (.ok v)
  have hpairs := gives_resolveFields h
  have hvalue : ∀ name s v,
      last? (·.responseKey) name (fields.filter (·.appliesTo e.typeKey)) = some s →
      (Json.Members.ofList pairs).get? name = some v →
      (x.resolveField o (.entity e) (path ++ [.field s.responseKey]) s).Gives (.ok v) :=
    fun name s v hs hv => of_last?_of_get? (R := Resolved) hpairs hs hv
  refine .intro ?_ ?_ ?_
  · rw [Json.Members.map_fst_ofList, map_fst_of_forall₂ (R := Resolved) hpairs]
    rfl
  · intro name s v hs hv htypename
    have hgives := hvalue name s v hs hv
    rw [resolveField_typename htypename, Resolver.gives_pure] at hgives
    cases hgives
    rfl
  · intro name s v hs hv depth hholds
    have hmem := List.mem_of_mem_filter (mem_of_last? hs)
    exact hbelow s hmem _ v (hvalue name s v hs hv) depth hholds

theorem shaped_of_resolveEntity {e : Entity}
    (hbelow : ∀ s ∈ fields, ∀ o, x.registry.Exposes o → ∀ parent path v,
      (x.resolveField o parent path s).Gives (.ok v) →
      ∀ depth, x.registry.Holds o s depth → x.registry.Shaped depth s.fields v)
    (h : (x.resolveEntity fields e path).Gives (.ok v)) : x.registry.Shaped 0 fields v := by
  obtain ⟨o, pairs, ho, hpairs, rfl⟩ := gives_resolveEntity h
  refine .object ho (conforms_of_resolveFields hpairs ?_)
  exact fun s hs => hbelow s hs o (.inl ⟨e.typeKey, ho⟩) (.entity e)

/-- By induction on the selections: what a field is found to be is as deep as its type, and the
objects in it are resolved with what is selected below. -/
theorem shaped_of_resolveField
    (hflat : ∀ o, x.registry.Exposes o → ∀ name f, o.fields.get? name = some f → f.type.depth ≤ 1)
    (s : Selection) : ∀ o, x.registry.Exposes o → ∀ parent path v,
      (x.resolveField o parent path s).Gives (.ok v) →
      ∀ depth, x.registry.Holds o s depth → x.registry.Shaped depth s.fields v := by
  induction s using Selection.induction_below with
  | h s ih =>
    intro o ho parent path v h depth hs
    rw [resolveField_eq] at h
    rcases Resolver.gives_recover_ok h with h | rfl
    · rw [fieldValue_eq_steps] at h
      obtain ⟨found, hfound, h⟩ := Resolver.gives_bind_ok h
      obtain ⟨outline, hread, h⟩ := Resolver.gives_bind_ok h
      rw [Resolver.gives_lift] at hread
      have hdepth : depth ≤ 1 := by
        obtain ⟨_, f, _, hf, rfl, _, _⟩ := hs
        exact hflat o ho s.name f hf
      have hnests := nests_of_read hs hdepth (finds_of_lookUp hfound) hread.symm
      exact Outline.shaped_of_resolve (fun e path v => shaped_of_resolveEntity ih) hnests h
    · exact .null depth s.fields

theorem shaped_of_resolveValue {type : TypeReference} {key : String} {value : Json}
    (hflat : ∀ o, x.registry.Exposes o → ∀ name f, o.fields.get? name = some f → f.type.depth ≤ 1)
    (hk : type.key? = some key) (hc : x.registry.isComposite key = true)
    (h : (x.resolveValue type value fields path).Gives (.ok v)) :
    x.registry.Shaped type.depth fields v := by
  rw [resolveValue] at h
  rcases Resolver.gives_recover_ok h with h | rfl
  · rw [Outline.completeValue_eq] at h
    have hentity : ∀ e path v, (x.resolveEntity fields e path).Gives (.ok v) →
        x.registry.Shaped 0 fields v := fun e path v =>
      shaped_of_resolveEntity fun s _ => shaped_of_resolveField hflat s
    exact Outline.shaped_of_resolve hentity (Outline.nests_ofValue hk hc value) h
  · exact .null _ fields

/-- With the registry of a metadata document every field of objects or unions has the shape of its
type, whether the objects come from the service or from the host. -/
theorem shaped_of_build {service : Service} {d : Csdl.Document} {augmentation : Option Augmentation}
    (ha : ∀ a ∈ augmentation, a.KeepsFlat)
    (hr : Registry.build service d augmentation = .ok x.registry) :
    (∀ o, x.registry.Exposes o → ∀ parent path s v,
      (x.resolveField o parent path s).Gives (.ok v) →
      ∀ depth, x.registry.Holds o s depth → x.registry.Shaped depth s.fields v) ∧
    ∀ type key value fields path v, type.key? = some key → x.registry.isComposite key = true →
      (x.resolveValue type value fields path).Gives (.ok v) →
      x.registry.Shaped type.depth fields v := by
  have hflat : ∀ o, x.registry.Exposes o → ∀ name f, o.fields.get? name = some f →
      f.type.depth ≤ 1 := fun o ho name f => Registry.flat_of_build ha hr ho
  refine ⟨?_, ?_⟩
  · intro o ho parent path s
    exact shaped_of_resolveField hflat s o ho parent path
  · intro type key value fields path v hk hc
    exact shaped_of_resolveValue hflat hk hc

end Execution

/-! The mascot as the service has it, and litters of pets that a host has. -/

namespace Mascot

def pets : TypeReference := .list (.list (.named "Pet"))

def litters : Json :=
  .array [.array [.object [("Name", .string "Ida"), ("Age", .string "3")], .null, .string "Rex"],
    .object [("Name", .string "Max")], .array []]

def friends : Json :=
  .object [("Name", .string "Rex"), ("Friend", .object [("Name", .string "Max")])]

/-- What is no list or no object is null. -/
def names : Json :=
  .array [.array [.object [("Name", .string "Ida")], .null, .null], .null, .array []]

theorem gives_friends :
    (answered.resolveField registry.queryRoot .root [.field "zoo", .field "Mascot"] mascot).Gives
      (.ok friends) :=
  Resolver.gives_of_run_nil (by decide +kernel)

theorem gives_names : (answered.resolveValue pets litters [petName] []).Gives (.ok names) :=
  Resolver.gives_of_run_nil (by decide)

end Mascot

theorem shaped_of_mascot :
    Registry.build Kennel.service Mascot.document = .ok Mascot.answered.registry ∧
    (Mascot.answered.resolveField Mascot.registry.queryRoot .root [.field "zoo", .field "Mascot"]
      Mascot.mascot).Gives (.ok Mascot.friends) ∧
    Mascot.registry.Shaped 0 Mascot.mascot.fields Mascot.friends ∧
    (Mascot.answered.resolveValue Mascot.pets Mascot.litters [Mascot.petName] []).Gives
      (.ok Mascot.names) ∧
    Mascot.registry.Shaped 2 [Mascot.petName] Mascot.names := by
  have hplain : ∀ a ∈ (none : Option Augmentation), a.KeepsFlat := nofun
  obtain ⟨hfield, hvalue⟩ :=
    Execution.shaped_of_build (x := Mascot.answered) hplain Mascot.build_document
  have hexposes : Mascot.registry.Exposes Mascot.registry.queryRoot := .inr (.inl rfl)
  have hholds : Mascot.registry.Holds Mascot.registry.queryRoot Mascot.mascot 0 :=
    ⟨by decide, Mascot.mascotField, "Pet", rfl, rfl, rfl, rfl⟩
  refine ⟨Mascot.build_document, Mascot.gives_friends, ?_, Mascot.gives_names, ?_⟩
  · exact hfield _ hexposes _ _ _ _ Mascot.gives_friends 0 hholds
  · exact hvalue Mascot.pets "Pet" _ _ _ _ rfl rfl Mascot.gives_names

end ODataGraph
