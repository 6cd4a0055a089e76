import ODataGraph.Proofs.Registry.NearestField
import ODataGraph.Proofs.Registry.Reference

/-!
Where placeholders stand. An object is made with its raw value alone, and what comes to it from
members, functions and bases are declared fields. Only those that are still left with nothing but
the raw value get a placeholder, so that an object has either declared fields and no placeholder, or
these two fields and no other.
-/

namespace ODataGraph

namespace ObjectType

variable {o : ObjectType}

/-- The raw value comes first, and all other fields are declared. -/
def StartsRaw (o : ObjectType) : Prop :=
  ∃ declared, o.fields.entries = (rawValueField, Types.rawValue) :: declared ∧
    ∀ e ∈ declared, e.2.isDeclared = true

/-- Nothing but the raw value and a placeholder. -/
def HoldsPlace (o : ObjectType) : Prop :=
  o.fields.entries = [(rawValueField, Types.rawValue), (placeholderField, Types.placeholder)]

theorem StartsRaw.mem_keys (h : o.StartsRaw) : rawValueField ∈ o.fields.keys := by
  obtain ⟨declared, hentries, _⟩ := h
  rw [OrderedMap.keys, hentries]
  exact List.mem_cons_self

theorem StartsRaw.insertNew (h : o.StartsRaw) {name : String} {f : Field}
    (hf : f.isDeclared = true ∨ name = rawValueField) : (o.addNewField name f).StartsRaw := by
  rw [addNewField, OrderedMap.insertNew]
  split
  · exact h
  · rename_i hnew
    rw [OrderedMap.contains_iff] at hnew
    have hf : f.isDeclared = true := hf.resolve_right fun heq => hnew (heq ▸ h.mem_keys)
    obtain ⟨declared, hentries, hdeclared⟩ := h
    refine ⟨declared ++ [(name, f)], ?_, fun e he => ?_⟩
    · rw [OrderedMap.entries_insert_of_not_mem hnew, hentries, List.cons_append]
    · rcases List.mem_append.1 he with he | he
      · exact hdeclared e he
      · cases List.mem_singleton.1 he
        exact hf

theorem StartsRaw.foldl_addNewField (h : o.StartsRaw) {fields : List (String × Field)}
    (hfields : ∀ e ∈ fields, e.2.isDeclared = true ∨ e.1 = rawValueField) :
    (fields.foldl (fun o (name, f) => o.addNewField name f) o).StartsRaw :=
  List.foldlRecOn (motive := StartsRaw) _ _ h fun _ ho e he => ho.insertNew (hfields e he)

theorem StartsRaw.isDeclared_or_eq (h : o.StartsRaw) :
    ∀ e ∈ o.fields.entries, e.2.isDeclared = true ∨ e.1 = rawValueField := by
  obtain ⟨declared, hentries, hdeclared⟩ := h
  rw [hentries]
  intro e he
  rcases List.mem_cons.1 he with rfl | he
  · exact .inr rfl
  · exact .inl (hdeclared e he)

theorem StartsRaw.kind_ne_placeholder (h : o.StartsRaw) :
    ∀ f ∈ o.fields.values, f.kind ≠ .placeholder := by
  obtain ⟨declared, hentries, hdeclared⟩ := h
  rw [OrderedMap.values, hentries, List.forall_mem_map]
  intro e he hkind
  rcases List.mem_cons.1 he with rfl | he
  · cases hkind
  · have he := hdeclared e he
    rw [Field.isDeclared, hkind] at he
    cases he

theorem StartsRaw.entries_eq (h : o.StartsRaw) (hnone : o.hasDeclaredFields = false) :
    o.fields.entries = [(rawValueField, Types.rawValue)] := by
  obtain ⟨declared, hentries, hdeclared⟩ := h
  cases declared with
  | nil => exact hentries
  | cons e rest =>
    have he : e.2 ∈ o.fields.values := by
      rw [OrderedMap.values, hentries]
      exact List.mem_cons_of_mem _ List.mem_cons_self
    have hany : o.hasDeclaredFields = true :=
      List.any_eq_true.2 ⟨e.2, he, hdeclared e List.mem_cons_self⟩
    rw [hnone] at hany
    cases hany

theorem StartsRaw.addPlaceholder (h : o.StartsRaw) (hnone : o.hasDeclaredFields = false) :
    o.addPlaceholder.HoldsPlace := by
  have hentries := h.entries_eq hnone
  have hnew : placeholderField ∉ o.fields.keys := by
    rw [OrderedMap.keys, hentries]
    decide
  rw [HoldsPlace, ObjectType.addPlaceholder, OrderedMap.entries_insert_of_not_mem hnew, hentries]
  rfl

theorem HoldsPlace.addPlaceholder (h : o.HoldsPlace) : o.addPlaceholder.HoldsPlace := by
  have hheld : placeholderField ∈ o.fields.keys := by
    rw [OrderedMap.keys, h]
    decide
  have hentries : (o.fields.insert placeholderField Types.placeholder).entries =
      o.fields.entries.map fun e =>
        (e.1, if e.1 = placeholderField then Types.placeholder else e.2) := by
    rw [OrderedMap.insert, dif_pos hheld]
    rfl
  rw [HoldsPlace, ObjectType.addPlaceholder, hentries, h]
  rfl

end ObjectType

namespace Types

variable {ts : Types} {service : Service} {d : Csdl.Document} {h : Hierarchy} {key : String}
  {waiting : List String}

theorem isDeclared_of_memberField? {m : Csdl.Member} {p : String × Field}
    (hp : ts.memberField? m = some p) : p.2.isDeclared = true := by
  obtain ⟨_, t, _, hp⟩ := memberField?_eq_some_iff.1 hp
  rw [hp]
  cases m.kind <;> rfl

theorem isDeclared_of_functionField? {f : Csdl.Function} {binding : String} {p : String × Field}
    (hp : ts.functionField? f binding = some p) : p.2.isDeclared = true := by
  simp only [functionField?, Option.bind_eq_bind, Option.bind_eq_some_iff] at hp
  obtain ⟨_, _, _, _, _, _, hp⟩ := hp
  cases hp
  rfl

/-! ### Before empty objects are settled -/

def StartRaw (ts : Types) : Prop := ∀ key o, ts.get? key = some (.object o) → o.StartsRaw

theorem StartRaw.addFields (hts : ts.StartRaw) (key : String) {fields : List (String × Field)}
    (hfields : ∀ e ∈ fields, e.2.isDeclared = true ∨ e.1 = rawValueField) :
    (ts.addFields key fields).StartRaw := by
  intro k o ho
  rw [Types.addFields, modifyObject] at ho
  split at ho
  · rw [OrderedMap.get?_modify] at ho
    split at ho
    · obtain ⟨t, ht, hobject⟩ := Option.map_eq_some_iff.1 ho
      cases t with
      | object o' =>
        cases hobject
        exact (hts k o' ht).foldl_addNewField hfields
      | enum _ => cases hobject
      | union _ => cases hobject
    · exact hts k o ho
  · exact hts k o ho

theorem startRaw_united (service : Service) (d : Csdl.Document) (h : Hierarchy) :
    (united service d h).StartRaw := by
  intro key o ho
  refine ⟨[], ?_, nofun⟩
  rw [(plain_of_get?_united ho).1]
  rfl

/-- A base hands down its raw value, which every object has, and declared fields. -/
theorem StartRaw.inheritFrom (hts : ts.StartRaw) (edge : String × String) :
    (Hierarchy.inheritFrom ts edge).StartRaw := by
  rw [Hierarchy.inheritFrom]
  split
  · rename_i base hbase
    simp only [object?, Option.bind_eq_bind, Option.bind_eq_some_iff,
      Descriptor.object?_eq_some_iff] at hbase
    obtain ⟨key, _, t, ht, rfl⟩ := hbase
    exact hts.addFields edge.1 (hts key base ht).isDeclared_or_eq
  · exact hts

theorem exists_startRaw (service : Service) (d : Csdl.Document) (h : Hierarchy) :
    ∃ ts : Types, ofDocument service d h = ts.settleEmpty ∧ ts.StartRaw := by
  have hmembers : (d.structuredTypes.foldl addMembers (united service d h)).StartRaw := by
    refine List.foldlRecOn (motive := StartRaw) _ _ (startRaw_united service d h)
      fun ts hts t _ => hts.addFields t.name fun e he => ?_
    obtain ⟨m, _, hm⟩ := List.mem_filterMap.1 he
    exact .inl (isDeclared_of_memberField? hm)
  have hfunctions : ((d.structuredTypes.foldl addMembers (united service d h)).addFunctions
      d.functions).StartRaw := by
    refine List.foldlRecOn (motive := StartRaw) _ _ hmembers
      fun ts hts owner _ => hts.addFields owner fun e he => ?_
    obtain ⟨p, hp, rfl⟩ := List.mem_map.1 he
    obtain ⟨f, _, _, binding, _, _, hf⟩ := mem_boundFields.1 (List.mem_filter.1 hp).1
    exact .inl (isDeclared_of_functionField? hf)
  exact ⟨_, rfl, List.foldlRecOn (motive := StartRaw) _ _ hfunctions
    fun _ hts edge _ => hts.inheritFrom edge⟩

/-! ### Settling them -/

/-- Objects without declared fields have a placeholder, or are yet to be settled. -/
def Placed (ts : Types) (waiting : List String) : Prop :=
  ∀ key o, ts.get? key = some (.object o) →
    o.HoldsPlace ∨ o.StartsRaw ∧ (key ∈ waiting ↔ o.hasDeclaredFields = false)

theorem StartRaw.placed (hts : ts.StartRaw) : ts.Placed ts.emptyKeys := by
  intro key o ho
  refine .inr ⟨hts key o ho, ?_⟩
  rw [mem_emptyKeys, ho]
  constructor
  · rintro ⟨_, ⟨⟩, hnone⟩
    exact hnone
  · exact fun hnone => ⟨o, rfl, hnone⟩

theorem Placed.settle (hts : ts.Placed (key :: waiting)) : (ts.settle key).Placed waiting := by
  intro k o ho
  rcases object_of_settle ho with ⟨hk, ho⟩ | ⟨o₀, _, ho₀, rfl, _⟩
  · refine (hts k o ho).imp_right fun ⟨hraw, hwaits⟩ => ⟨hraw, ?_⟩
    rw [← hwaits, List.mem_cons, or_iff_right hk]
  · have hplace : o₀.addPlaceholder.HoldsPlace := by
      rcases hts key o₀ ho₀ with hplace | ⟨hraw, hwaits⟩
      · exact hplace.addPlaceholder
      · exact hraw.addPlaceholder (hwaits.1 List.mem_cons_self)
    exact .inl hplace

theorem placed_ofDocument (service : Service) (d : Csdl.Document) (h : Hierarchy) :
    (ofDocument service d h).Placed [] := by
  obtain ⟨ts, hts, hraw⟩ := exists_startRaw service d h
  have hsettle : ∀ (keys : List String) (ts : Types), ts.Placed keys →
      (keys.foldl settle ts).Placed [] := by
    intro keys
    induction keys with
    | nil => exact fun _ hts => hts
    | cons key rest ih => exact fun ts hts => ih _ hts.settle
  rw [hts]
  exact hsettle _ _ hraw.placed

end Types

namespace Registry

variable {service : Service} {d : Csdl.Document} {r : Registry} {key : String} {o : ObjectType}

/-- The names of the fields of an object, with what they hold and where that comes from. -/
def outline (o : ObjectType) : List (String × TypeReference × FieldKind) :=
  o.fields.entries.map fun e => (e.1, e.2.core)

theorem outline_annotate (o : ObjectType) (cs : Capabilities)
    (properties : OrderedMap String (List Csdl.AppliedTerm)) :
    outline (o.annotate cs properties) = outline o := by
  simp only [outline, ObjectType.annotate]
  refine List.foldlRecOn (motive := fun fields : OrderedMap String Field =>
    fields.entries.map (fun e => (e.1, e.2.core)) = o.fields.entries.map fun e => (e.1, e.2.core))
    _ _ rfl fun fields hfields property _ => ?_
  split
  · exact hfields
  · rw [← hfields, OrderedMap.modify, OrderedMap.map, List.map_map]
    refine List.map_congr_left fun e _ => ?_
    dsimp only [Function.comp_apply]
    split
    · rw [Field.core_annotate]
    · rfl

/-- Annotations leave objects their fields. -/
theorem exists_outline_of_get? (hr : build service d = .ok r)
    (ho : r.get? key = some (.object o)) :
    ∃ h o₀, (Types.ofDocument service d h).get? key = some (.object o₀) ∧
      outline o = outline o₀ := by
  obtain ⟨h, _, hget⟩ := exists_get?_of_build hr
  have hkeeps : ∀ a ∈ (none : Option Augmentation), a.KeepsShape := nofun
  obtain ⟨o₀, ho₀, hannotate⟩ := exists_object_of_get? hkeeps (hget key) ho
  cases hannotate
  exact ⟨h, o₀, ho₀, outline_annotate _ _ _⟩

theorem hasDeclaredFields_iff : o.hasDeclaredFields = true ↔
    ∃ e ∈ outline o, e.2.2 ≠ .rawValue ∧ e.2.2 ≠ .placeholder := by
  simp [ObjectType.hasDeclaredFields, OrderedMap.values, Field.isDeclared, outline, Field.core]

theorem kind_ne_placeholder_iff : (∀ f ∈ o.fields.values, f.kind ≠ .placeholder) ↔
    ∀ e ∈ outline o, e.2.2 ≠ .placeholder := by
  rw [OrderedMap.values, outline, List.forall_mem_map, List.forall_mem_map]
  rfl

/-- Every registered object has a declared field and no placeholder, or exactly its raw value and a
placeholder. -/
theorem placeholders_of_build (hr : build service d = .ok r)
    (ho : r.get? key = some (.object o)) :
    (o.hasDeclaredFields = true ∧ ∀ f ∈ o.fields.values, f.kind ≠ .placeholder) ∨
    ∃ raw place, o.fields.entries = [(rawValueField, raw), (placeholderField, place)] ∧
      raw.type = .scalar .string ∧ raw.kind = .rawValue ∧
      place.type = .scalar .void ∧ place.kind = .placeholder := by
  obtain ⟨h, o₀, ho₀, houtline⟩ := exists_outline_of_get? hr ho
  rcases Types.placed_ofDocument service d h key o₀ ho₀ with hplace | ⟨hraw, hsettled⟩
  · rw [outline, outline, hplace] at houtline
    obtain ⟨⟨_, raw⟩, _, hentries, hraw, hrest⟩ := List.map_eq_cons_iff.1 houtline
    obtain ⟨⟨_, place⟩, _, rfl, hplace, hnil⟩ := List.map_eq_cons_iff.1 hrest
    cases List.map_eq_nil_iff.1 hnil
    simp only [Field.core, Prod.mk.injEq] at hraw hplace
    obtain ⟨rfl, hrawType, hrawKind⟩ := hraw
    obtain ⟨rfl, hplaceType, hplaceKind⟩ := hplace
    exact .inr ⟨raw, place, hentries, hrawType, hrawKind, hplaceType, hplaceKind⟩
  · have hdeclared : o₀.hasDeclaredFields = true := by
      rw [← Bool.not_eq_false, ← hsettled]
      exact List.not_mem_nil
    refine .inl ⟨?_, ?_⟩
    · rw [hasDeclaredFields_iff, houtline, ← hasDeclaredFields_iff]
      exact hdeclared
    · rw [kind_ne_placeholder_iff, houtline, ← kind_ne_placeholder_iff]
      exact hraw.kind_ne_placeholder

/-- A dog, which may be found under some name. -/
def loneDog (container : List Csdl.ContainerEntry) : Csdl.Document where
  structuredTypes := [{ name := "Dog" }]
  container

/-- A dog that has nothing to tell about itself. -/
theorem placeholders_of_loneDog : ∃ r o,
    build ⟨"zoo", "http://zoo.test/odata"⟩ (loneDog []) = .ok r ∧
      r.get? "Dog" = some (.object o) ∧ o.fields.keys = [rawValueField, placeholderField] := by
  have hbuilds : (build ⟨"zoo", "http://zoo.test/odata"⟩ (loneDog [])).toOption.any (fun r =>
      ((r.get? "Dog").bind Descriptor.object?).any fun o => !o.hasDeclaredFields) = true := by
    decide
  obtain ⟨r, hr, hdog⟩ := exists_of_any_toOption hbuilds
  obtain ⟨o, hobject, hnone⟩ := (Option.any_eq_true ..).1 hdog
  obtain ⟨t, ht, hobject⟩ := Option.bind_eq_some_iff.1 hobject
  cases Descriptor.object?_eq_some_iff.1 hobject
  refine ⟨r, o, hr, ht, ?_⟩
  rcases placeholders_of_build hr ht with ⟨hdeclared, _⟩ | ⟨raw, place, hentries, _⟩
  · rw [hdeclared] at hnone
    cases hnone
  · rw [OrderedMap.keys, hentries]
    rfl

end Registry

end ODataGraph
