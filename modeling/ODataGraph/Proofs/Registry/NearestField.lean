import ODataGraph.Proofs.Registry.Subsumption

/-!
The fields of objects, read off the document: under every name the field of the nearest type that
supplies one, beginning with the type itself and going from base to base.
-/

namespace ODataGraph

open Csdl (StructuredType Member MemberKind Function Parameter TypeRef Extends)
open Relation (ReflTransGen TransGen)

/-- An element with a property, and none before it has the property. -/
def IsFirst {α : Type} (p : α → Prop) (l : List α) (a : α) : Prop :=
  ∃ before after, l = before ++ a :: after ∧ p a ∧ ∀ b ∈ before, ¬ p b

namespace IsFirst

variable {α : Type} {p q : α → Prop} {l : List α} {a b : α}

theorem cons_iff : IsFirst p (b :: l) a ↔ p b ∧ a = b ∨ ¬ p b ∧ IsFirst p l a := by
  constructor
  · rintro ⟨before, after, hl, ha, hbefore⟩
    cases before with
    | nil =>
      obtain ⟨rfl, rfl⟩ := List.cons.inj hl
      exact .inl ⟨ha, rfl⟩
    | cons c before =>
      obtain ⟨rfl, rfl⟩ := List.cons.inj hl
      exact .inr ⟨hbefore _ List.mem_cons_self, before, after, rfl, ha,
        fun d hd => hbefore d (List.mem_cons_of_mem _ hd)⟩
  · rintro (⟨hb, rfl⟩ | ⟨hb, before, after, rfl, ha, hbefore⟩)
    · exact ⟨[], l, rfl, hb, fun _ h => absurd h List.not_mem_nil⟩
    · refine ⟨b :: before, after, rfl, ha, fun c hc => ?_⟩
      rcases List.mem_cons.1 hc with rfl | hc
      · exact hb
      · exact hbefore c hc

theorem congr (h : ∀ a ∈ l, p a ↔ q a) : IsFirst p l a ↔ IsFirst q l a := by
  refine exists₂_congr fun before after => and_congr_right ?_
  rintro rfl
  have hbefore : ∀ b ∈ before, p b ↔ q b := fun b hb => h b (List.mem_append_left _ hb)
  exact and_congr (h a (List.mem_append_right _ List.mem_cons_self))
    (forall₂_congr fun b hb => not_congr (hbefore b hb))

theorem mem (h : IsFirst p l a) : a ∈ l := by
  obtain ⟨before, after, rfl, _⟩ := h
  exact List.mem_append_right _ List.mem_cons_self

theorem holds (h : IsFirst p l a) : p a := by
  obtain ⟨_, _, _, ha, _⟩ := h
  exact ha

theorem exists_iff : (∃ a, IsFirst p l a) ↔ ∃ a ∈ l, p a := by
  induction l with
  | nil =>
    exact ⟨fun ⟨_, h⟩ => absurd h.mem List.not_mem_nil, fun ⟨_, h, _⟩ => absurd h List.not_mem_nil⟩
  | cons b l ih =>
    simp only [cons_iff, List.mem_cons, exists_eq_or_imp, ← ih, exists_or, exists_and_left]
    by_cases hb : p b <;> simp [hb]

/-- A look-up finds the first element that has an entry with the key. -/
theorem lookup_filterMap_eq_some_iff {β : Type} {g : α → Option (String × β)} {key : String}
    {v : β} : (l.filterMap g).lookup key = some v ↔
      ∃ a, IsFirst (fun a => ∃ w, g a = some (key, w)) l a ∧ g a = some (key, v) := by
  induction l with
  | nil =>
    refine ⟨fun h => (by cases h), fun ⟨a, hfirst, _⟩ => ?_⟩
    exact absurd hfirst.mem List.not_mem_nil
  | cons b l ih =>
    simp only [cons_iff]
    cases hb : g b with
    | none =>
      rw [List.filterMap_cons_none hb, ih]
      simp
    | some e =>
      obtain ⟨k, w⟩ := e
      rw [List.filterMap_cons_some hb, List.lookup_cons]
      by_cases hkey : key = k
      · subst hkey
        simp [hb, eq_comm]
      · have hne : ¬ k = key := fun h => hkey h.symm
        simp [beq_false_of_ne hkey, ih, hne]

end IsFirst

namespace Csdl

/-- Where the value of a member comes from. -/
def MemberKind.fieldKind : MemberKind → FieldKind
  | .property => .property
  | .navigation => .navigation

namespace Document

/-- What a reference stands for: a scalar or a declared type, or a list of these. -/
inductive Denotes (d : Csdl.Document) : TypeRef → TypeReference → Prop
  | scalar {name s} : Scalar.ofPrimitive? name = some s → Denotes d ⟨false, name⟩ (.scalar s)
  | declared {name} : Scalar.ofPrimitive? name = none → localName name ∈ d.declaredNames →
      Denotes d ⟨false, name⟩ (.named (localName name))
  | list {name t} : Denotes d ⟨false, name⟩ t → Denotes d ⟨true, name⟩ (.list t)

/-- The members of a structured type. -/
def membersOf (d : Csdl.Document) (name : String) : List Member :=
  (d.structuredTypes.filter (·.name == name)).flatMap (·.members)

/-- The field that a type has by itself under a name: that of the first member whose type can be
represented, or without such a member that of the first function that can be attached. -/
inductive Supplies (d : Csdl.Document) (field name : String) : TypeReference → FieldKind → Prop
  | member {m t} : IsFirst (fun m => m.name = field ∧ d.Represents m.type) (d.membersOf name) m →
      d.Denotes (.parse m.type) t → Supplies d field name t m.kind.fieldKind
  | function {f type t} : (∀ m ∈ d.membersOf name, m.name = field → ¬ d.Represents m.type) →
      IsFirst (fun f => f.name = field ∧ d.Attaches f name) d.functions f →
      f.returnType = some type → d.Denotes (.parse type) t → Supplies d field name t .function

/-- The field that a type has under a name: its own, or else the one of its base. -/
inductive Carries (d : Csdl.Document) (field : String) :
    String → TypeReference → FieldKind → Prop
  | own {name t kind} : d.Supplies field name t kind → Carries d field name t kind
  | base {name base t kind} : (∀ t kind, ¬ d.Supplies field name t kind) →
      Extends d.structuredTypes name base → Carries d field base t kind →
      Carries d field name t kind

/-- A type can have a field of the name by itself. -/
def ContributesField (d : Csdl.Document) (field name : String) : Prop :=
  (∃ m ∈ d.membersOf name, m.name = field ∧ d.Represents m.type) ∨
    ∃ f ∈ d.functions, f.name = field ∧ d.Attaches f name

variable {d : Csdl.Document} {field name type : String} {t : TypeReference} {kind : FieldKind}

theorem represents_iff : d.Represents type ↔ ∃ t, d.Denotes (.parse type) t := by
  rw [Represents]
  generalize TypeRef.parse type = ref
  obtain ⟨isCollection, name⟩ := ref
  have helement : (Scalar.ofPrimitive? name).isSome ∨ localName name ∈ d.declaredNames ↔
      ∃ t, d.Denotes ⟨false, name⟩ t := by
    constructor
    · cases hs : Scalar.ofPrimitive? name with
      | some s => exact fun _ => ⟨_, .scalar hs⟩
      | none => exact fun h => ⟨_, .declared hs (h.resolve_left (by simp))⟩
    · rintro ⟨t, hs | ⟨_, hdeclared⟩⟩
      · exact .inl (hs ▸ rfl)
      · exact .inr hdeclared
  rw [TypeRef.localName, helement]
  cases isCollection with
  | false => rfl
  | true =>
    constructor
    · rintro ⟨t, ht⟩
      exact ⟨_, .list ht⟩
    · rintro ⟨_, hlist⟩
      cases hlist with
      | list ht => exact ⟨_, ht⟩

theorem exists_supplies_iff :
    (∃ t kind, d.Supplies field name t kind) ↔ d.ContributesField field name := by
  constructor
  · rintro ⟨_, _, hm | ⟨_, hg, _, _⟩⟩
    · rename_i m _
      exact .inl ⟨m, hm.mem, hm.holds⟩
    · exact .inr ⟨_, hg.mem, hg.holds⟩
  · intro hcontributes
    by_cases hmember : ∃ m ∈ d.membersOf name, m.name = field ∧ d.Represents m.type
    · obtain ⟨m, hm⟩ := IsFirst.exists_iff.2 hmember
      obtain ⟨t, ht⟩ := represents_iff.1 hm.holds.2
      exact ⟨t, _, .member hm ht⟩
    · obtain ⟨g, hg⟩ := IsFirst.exists_iff.2 (hcontributes.resolve_left hmember)
      obtain ⟨_, _, _, _, ⟨type, htype, hrep⟩, _⟩ := hg.holds.2
      obtain ⟨t, ht⟩ := represents_iff.1 hrep
      refine ⟨t, _, .function (fun m hm hname hrep => ?_) hg htype ht⟩
      exact hmember ⟨m, hm, hname, hrep⟩

/-- There is a field exactly if the type or one above it contributes one of the name. -/
theorem exists_carries_iff : (∃ t kind, d.Carries field name t kind) ↔
    ∃ top, ReflTransGen (Extends d.structuredTypes) name top ∧ d.ContributesField field top := by
  constructor
  · rintro ⟨t, kind, h⟩
    induction h with
    | own hsupplies => exact ⟨_, .refl, exists_supplies_iff.1 ⟨_, _, hsupplies⟩⟩
    | base _ hext _ ih =>
      obtain ⟨top, hway, hcontributes⟩ := ih
      exact ⟨top, .head hext hway, hcontributes⟩
  · rintro ⟨top, hway, hcontributes⟩
    induction hway using ReflTransGen.head_induction_on with
    | refl =>
      obtain ⟨t, kind, h⟩ := exists_supplies_iff.2 hcontributes
      exact ⟨t, kind, .own h⟩
    | @head x _ hext _ ih =>
      by_cases hown : ∃ t kind, d.Supplies field x t kind
      · obtain ⟨t, kind, h⟩ := hown
        exact ⟨t, kind, .own h⟩
      · obtain ⟨t, kind, h⟩ := ih
        exact ⟨t, kind, .base (fun t kind h => hown ⟨t, kind, h⟩) hext h⟩

theorem Carries.kind_ne_placeholder (h : d.Carries field name t kind) : kind ≠ .placeholder := by
  induction h with
  | own hsupplies =>
    rcases hsupplies with _ | _
    · rename_i m _ _
      cases hkind : m.kind <;> simp [MemberKind.fieldKind]
    · simp
  | base _ _ _ ih => exact ih

end Document

end Csdl

namespace Types

variable {ts : Types} {d : Csdl.Document} {service : Service} {h : Hierarchy}
  {name field type : String} {t : TypeReference} {kind : FieldKind}

theorem resolve?_eq_some_iff (hts : ts.contains (TypeRef.parse type).localName = true ↔
    (TypeRef.parse type).localName ∈ d.declaredNames) :
    ts.resolve? type = some t ↔ d.Denotes (.parse type) t := by
  rw [resolve?_eq, Option.map_eq_some_iff]
  generalize TypeRef.parse type = ref at hts ⊢
  obtain ⟨isCollection, name⟩ := ref
  rw [TypeRef.localName] at hts
  have helement : ∀ t, ts.element? ⟨isCollection, name⟩ = some t ↔ d.Denotes ⟨false, name⟩ t := by
    intro t
    rw [element?_eq_some_iff, TypeRef.localName, hts]
    constructor
    · rintro (⟨s, hs, rfl⟩ | ⟨hs, hdeclared, rfl⟩)
      · exact .scalar hs
      · exact .declared hs hdeclared
    · rintro (hs | ⟨hs, hdeclared⟩)
      · exact .inl ⟨_, hs, rfl⟩
      · exact .inr ⟨hs, hdeclared, rfl⟩
  simp only [helement]
  cases isCollection with
  | false => simp
  | true =>
    constructor
    · rintro ⟨element, helement, rfl⟩
      exact .list helement
    · intro hlist
      cases hlist with
      | list helement => exact ⟨_, helement, rfl⟩

theorem exists_resolve?_iff (hts : ts.contains (TypeRef.parse type).localName = true ↔
    (TypeRef.parse type).localName ∈ d.declaredNames) :
    (∃ t, ts.resolve? type = some t) ↔ d.Represents type := by
  rw [← resolve?_isSome_iff hts, Option.isSome_iff_exists]

variable {m : Member} {g : Function} {f : Field}

theorem memberField?_eq_some_iff :
    ts.memberField? m = some (field, f) ↔ m.name = field ∧
      ∃ t, ts.resolve? m.type = some t ∧ f = { type := t, kind := m.kind.fieldKind } := by
  have heq : ts.memberField? m = (ts.resolve? m.type).map fun type =>
      (m.name, { type, kind := m.kind.fieldKind }) := by
    rw [memberField?]
    cases m.kind <;> rfl
  rw [heq, Option.map_eq_some_iff]
  constructor
  · rintro ⟨t, ht, hf⟩
    cases hf
    exact ⟨rfl, t, ht, rfl⟩
  · rintro ⟨rfl, t, ht, rfl⟩
    exact ⟨t, ht, rfl⟩

/-- The field of the type with a name that a function amounts to. -/
def attachedField? (ts : Types) (name : String) (g : Function) : Option (String × Field) :=
  if g.isBound then
    (bindingParameter? g).bind fun binding =>
      if ownerKey binding = name then ts.functionField? g binding.name else none
  else none

theorem attachedFields_eq (ts : Types) (name : String) (functions : List Function) :
    ((ts.boundFields functions).filter (·.1 == name)).map Prod.snd =
      functions.filterMap (ts.attachedField? name) := by
  rw [boundFields, List.filterMap_filter, List.filter_filterMap, List.map_filterMap]
  refine List.filterMap_congr fun g _ => ?_
  rw [attachedField?]
  cases g.isBound with
  | false => rfl
  | true =>
    cases bindingParameter? g with
    | none => rfl
    | some binding =>
      cases hf : ts.functionField? g binding.name with
      | none => simp [hf]
      | some p => by_cases howner : ownerKey binding = name <;> simp [hf, howner, Option.filter]

theorem of_attachedField? (hf : ts.attachedField? name g = some (field, f)) :
    g.name = field ∧ ∃ type t, g.returnType = some type ∧ ts.resolve? type = some t ∧
      f.core = (t, .function) := by
  simp only [attachedField?, Option.ite_none_right_eq_some, Option.bind_eq_some_iff] at hf
  obtain ⟨_, binding, _, _, hf⟩ := hf
  have hname := (of_functionField? hf).1
  simp only [functionField?, Option.bind_eq_bind, Option.bind_eq_some_iff] at hf
  obtain ⟨type, htype, t, ht, arguments, _, hf⟩ := hf
  cases hf
  exact ⟨rfl, type, t, htype, ht, rfl⟩

theorem exists_attachedField?_iff
    (hts : ∀ name ∈ d.referencedNames, ts.contains name = true ↔ name ∈ d.declaredNames)
    (hg : g ∈ d.functions) :
    (∃ f, ts.attachedField? name g = some (field, f)) ↔ g.name = field ∧ d.Attaches g name := by
  have hreturn : ∀ type, g.returnType = some type →
      ((ts.resolve? type).isSome ↔ d.Represents type) := fun type htype =>
    resolve?_isSome_iff (hts _ (Csdl.Document.mem_referencedNames_of_returnType hg htype))
  have hparameter : ∀ p ∈ g.parameters, ((ts.resolve? p.type).isSome ↔ d.Represents p.type) :=
    fun p hp => resolve?_isSome_iff (hts _ (Csdl.Document.mem_referencedNames_of_parameter hg hp))
  simp only [attachedField?, Option.ite_none_right_eq_some, Option.bind_eq_some_iff,
    Csdl.Document.Attaches]
  constructor
  · rintro ⟨f, hbound, binding, hbinding, howner, hf⟩
    obtain ⟨⟨type, htype, ht⟩, hparameters⟩ := functionField?_isSome_iff.1
      (Option.isSome_iff_exists.2 ⟨_, hf⟩)
    exact ⟨(of_functionField? hf).1.symm, hbound, binding, hbinding, howner,
      ⟨type, htype, (hreturn type htype).1 ht⟩,
      fun p hp hne => (hparameter p hp).1 (hparameters p hp hne)⟩
  · rintro ⟨rfl, hbound, binding, hbinding, howner, ⟨type, htype, ht⟩, hparameters⟩
    have hsome : (ts.functionField? g binding.name).isSome :=
      functionField?_isSome_iff.2 ⟨⟨type, htype, (hreturn type htype).2 ht⟩,
        fun p hp hne => (hparameter p hp).2 (hparameters p hp hne)⟩
    obtain ⟨⟨key, f⟩, hf⟩ := Option.isSome_iff_exists.1 hsome
    cases (of_functionField? hf).1
    exact ⟨f, hbound, binding, hbinding, howner, hf⟩

theorem ownFields_eq (ts : Types) (d : Csdl.Document) (name : String) :
    ts.ownFields d name = (d.membersOf name).filterMap ts.memberField? ++
      d.functions.filterMap (ts.attachedField? name) := by
  rw [ownFields, attachedFields_eq, Csdl.Document.membersOf, List.filterMap_flatMap]

theorem mem_membersOf {m : Member} :
    m ∈ d.membersOf name ↔ ∃ t ∈ d.structuredTypes, t.name = name ∧ m ∈ t.members := by
  simp only [Csdl.Document.membersOf, List.mem_flatMap, List.mem_filter, beq_iff_eq, and_assoc]

theorem contains_member_iff
    (hts : ∀ name ∈ d.referencedNames, ts.contains name = true ↔ name ∈ d.declaredNames)
    (hm : m ∈ d.membersOf name) : ts.contains (TypeRef.parse m.type).localName = true ↔
      (TypeRef.parse m.type).localName ∈ d.declaredNames := by
  obtain ⟨t, ht, _, hm⟩ := mem_membersOf.1 hm
  exact hts _ (Csdl.Document.mem_referencedNames_of_member ht hm)

theorem exists_memberField?_iff
    (hts : ∀ name ∈ d.referencedNames, ts.contains name = true ↔ name ∈ d.declaredNames)
    (hm : m ∈ d.membersOf name) :
    (∃ f, ts.memberField? m = some (field, f)) ↔ m.name = field ∧ d.Represents m.type := by
  rw [← exists_resolve?_iff (contains_member_iff hts hm)]
  simp only [memberField?_eq_some_iff]
  constructor
  · rintro ⟨_, hname, t, ht, _⟩
    exact ⟨hname, t, ht⟩
  · rintro ⟨hname, t, ht⟩
    exact ⟨_, hname, t, ht, rfl⟩

theorem lookup_memberField?_eq_none_iff
    (hts : ∀ name ∈ d.referencedNames, ts.contains name = true ↔ name ∈ d.declaredNames) :
    ((d.membersOf name).filterMap ts.memberField?).lookup field = none ↔
      ∀ m ∈ d.membersOf name, m.name = field → ¬ d.Represents m.type := by
  rw [List.lookup_eq_none_iff]
  constructor
  · intro h m hm hname hrep
    obtain ⟨f, hf⟩ := (exists_memberField?_iff hts hm).2 ⟨hname, hrep⟩
    exact bne_iff_ne.1 (h _ (List.mem_filterMap.2 ⟨m, hm, hf⟩)) rfl
  · rintro h ⟨key, f⟩ hp
    obtain ⟨m, hm, hf⟩ := List.mem_filterMap.1 hp
    obtain ⟨hname, hrep⟩ := (exists_memberField?_iff hts hm).1 ⟨f, hf⟩
    exact bne_iff_ne.2 fun heq => h m hm (hname.trans heq.symm) hrep

/-- The field that a type has by itself under a name is the one that the document supplies. -/
theorem exists_get?_ownMap_iff
    (hts : ∀ name ∈ d.referencedNames, ts.contains name = true ↔ name ∈ d.declaredNames)
    (hfield : field ≠ rawValueField) :
    (∃ f, (ts.ownMap d name).get? field = some f ∧ f.core = (t, kind)) ↔
      d.Supplies field name t kind := by
  have hmember : ∀ m, IsFirst (fun m => ∃ f, ts.memberField? m = some (field, f))
      (d.membersOf name) m ↔
        IsFirst (fun m => m.name = field ∧ d.Represents m.type) (d.membersOf name) m :=
    fun m => IsFirst.congr fun m hm => exists_memberField?_iff hts hm
  have hfunction : ∀ g, IsFirst (fun g => ∃ f, ts.attachedField? name g = some (field, f))
      d.functions g ↔ IsFirst (fun g => g.name = field ∧ d.Attaches g name) d.functions g :=
    fun g => IsFirst.congr fun g hg => exists_attachedField?_iff hts hg
  simp only [get?_ownMap, if_neg hfield, ownFields_eq, List.lookup_append, Option.or_eq_some_iff,
    lookup_memberField?_eq_none_iff hts, IsFirst.lookup_filterMap_eq_some_iff, hmember, hfunction]
  constructor
  · rintro ⟨f, ⟨m, hm, hf⟩ | ⟨hno, g, hg, hf⟩, hcore⟩
    · obtain ⟨_, t, ht, rfl⟩ := memberField?_eq_some_iff.1 hf
      cases hcore
      exact .member hm ((resolve?_eq_some_iff (contains_member_iff hts hm.mem)).1 ht)
    · obtain ⟨_, type, t, htype, ht, hcore'⟩ := of_attachedField? hf
      cases hcore.symm.trans hcore'
      refine .function hno hg htype ((resolve?_eq_some_iff ?_).1 ht)
      exact hts _ (Csdl.Document.mem_referencedNames_of_returnType hg.mem htype)
  · rintro (⟨hm, ht⟩ | ⟨hno, hg, htype, ht⟩)
    · rename_i m
      have ht := (resolve?_eq_some_iff (contains_member_iff hts hm.mem)).2 ht
      exact ⟨_, .inl ⟨m, hm, memberField?_eq_some_iff.2 ⟨hm.holds.1, _, ht, rfl⟩⟩, rfl⟩
    · rename_i g type
      have ht := (resolve?_eq_some_iff
        (hts _ (Csdl.Document.mem_referencedNames_of_returnType hg.mem htype))).2 ht
      obtain ⟨f, hf⟩ := (exists_attachedField?_iff hts hg.mem).2 hg.holds
      obtain ⟨_, type', t', htype', ht', hcore⟩ := of_attachedField? hf
      cases htype.symm.trans htype'
      cases ht.symm.trans ht'
      exact ⟨f, .inr ⟨hno, g, hg, hf⟩, hcore⟩

/-- The field that a type inherits under a name is the one that the document has it carry. -/
theorem exists_inherits_iff
    (hts : ∀ name ∈ d.referencedNames, ts.contains name = true ↔ name ∈ d.declaredNames)
    (hfield : field ≠ rawValueField) :
    (∃ f, Inherits (Extends d.structuredTypes) (ts.ownMap d) field name f ∧ f.core = (t, kind)) ↔
      d.Carries field name t kind := by
  have hown : ∀ name t kind, (∃ f, (ts.ownMap d name).get? field = some f ∧ f.core = (t, kind)) ↔
      d.Supplies field name t kind := fun _ _ _ => exists_get?_ownMap_iff hts hfield
  have hnone : ∀ name, (ts.ownMap d name).get? field = none ↔
      ∀ t kind, ¬ d.Supplies field name t kind := by
    intro name
    simp only [← hown, Option.eq_none_iff_forall_ne_some]
    constructor
    · rintro h t kind ⟨f, hf, _⟩
      exact h f hf
    · intro h f hf
      exact h f.type f.kind ⟨f, hf, rfl⟩
  constructor
  · rintro ⟨f, hf, hcore⟩
    induction hf with
    | own hf => exact .own ((hown _ _ _).1 ⟨_, hf, hcore⟩)
    | base hno hext _ ih => exact .base ((hnone _).1 hno) hext (ih hcore)
  · intro hcarries
    induction hcarries with
    | own hsupplies =>
      obtain ⟨f, hf, hcore⟩ := (hown _ _ _).2 hsupplies
      exact ⟨f, .own hf, hcore⟩
    | base hno hext _ ih =>
      obtain ⟨f, hf, hcore⟩ := ih
      exact ⟨f, .base ((hnone _).2 hno) hext hf, hcore⟩

variable {F : FieldMap} {o : ObjectType}

theorem InheritedFields.exists_core_iff (hF : InheritedFields service d h F)
    (ho : h.Orders d.structuredTypes) (hd : d.WellNamed) (hname : name ∈ d.typeNames)
    (hfield : field ≠ rawValueField) :
    (∃ f, (F (h.objectKey name)).get? field = some f ∧ f.core = (t, kind)) ↔
      d.Carries field name t kind := by
  rw [← exists_inherits_iff (contains_united_of_referenced ho hd) hfield]
  exact exists_congr fun f => and_congr_left' (hF name hname field f)

theorem InheritedFields.kind_ne_placeholder (hF : InheritedFields service d h F)
    (hname : name ∈ d.typeNames) (hf : (F (h.objectKey name)).get? field = some f) :
    f.kind ≠ .placeholder := by
  obtain ⟨top, _, hown⟩ := ((hF name hname field f).1 hf).exists_reflTransGen
  by_cases hfield : field = rawValueField
  · rw [get?_ownMap, if_pos hfield] at hown
    cases hown
    simp [rawValue]
  · have hdeclared := (isDeclared_iff_of_get?_ownMap hown).2 hfield
    intro hkind
    simp [Field.isDeclared, hkind] at hdeclared

theorem InheritedFields.get?_eq_none (hF : InheritedFields service d h F)
    (ho : h.Orders d.structuredTypes) (hd : d.WellNamed) (hname : name ∈ d.typeNames)
    (hno : ¬ d.HasFields name) (hfield : field ≠ rawValueField) :
    (F (h.objectKey name)).get? field = none := by
  refine Option.eq_none_iff_forall_ne_some.2 fun f hf => hno ?_
  have hinherits := (hF name hname field f).1 hf
  obtain ⟨top, _, hown⟩ := hinherits.exists_reflTransGen
  exact (exists_declared_iff (contains_united_of_referenced ho hd)).1
    ⟨field, f, hinherits, (isDeclared_iff_of_get?_ownMap hown).2 hfield⟩

/-- Of a settled object the fields are the inherited ones; without any there is a placeholder. -/
theorem InheritedFields.get?_settled (hF : InheritedFields service d h F)
    (ho : h.Orders d.structuredTypes) (hd : d.WellNamed) (hname : name ∈ d.typeNames)
    (hobject : ((united service d h).setFields F).settleEmpty.get? (h.objectKey name) =
      some (.object o)) :
    o.fields = F (h.objectKey name) ∨ ¬ d.HasFields name ∧
      o.fields = (F (h.objectKey name)).insert placeholderField placeholder := by
  by_cases hfields : d.HasFields name
  · cases (get?_settled_object ho hd hF hname hfields).symm.trans hobject
    exact .inl rfl
  · by_cases hbase : h.isBase name = true
    · rw [Hierarchy.objectKey, if_pos hbase, get?_settled_baseKey ho hd hF hname hbase hfields]
        at hobject
      cases hobject
    · rw [Hierarchy.objectKey, if_neg hbase] at hobject ⊢
      cases (get?_settled_empty ho hd hF hname hbase hfields).symm.trans hobject
      exact .inr ⟨hfields, rfl⟩

end Types

/-- The augmentation only decorates: it leaves the shape of types as it is, and what the fields of
objects hold and where they come from. -/
structure Augmentation.KeepsFields (a : Augmentation) : Prop where
  shape : a.KeepsShape
  core : ∀ o o', a (.object o) = .object o' → ∀ field,
    (o'.fields.get? field).map Field.core = (o.fields.get? field).map Field.core

namespace Registry

variable {service : Service} {d : Csdl.Document} {augmentation : Option Augmentation} {r : Registry}
  {key : String} {o : ObjectType}

/-- Neither annotations nor an augmentation change what the fields of an object hold. -/
theorem exists_core_of_get? (ha : ∀ a ∈ augmentation, a.KeepsFields) {h : Hierarchy}
    (hget : r.get? key = ((Types.ofDocument service d h).get? key).map fun t =>
      augmentation.getD id (t.annotate d key))
    (ho : r.get? key = some (.object o)) :
    ∃ o₀, (Types.ofDocument service d h).get? key = some (.object o₀) ∧ ∀ field,
      (o.fields.get? field).map Field.core = (o₀.fields.get? field).map Field.core := by
  obtain ⟨o₀, ho₀, heq⟩ := exists_object_of_get? (fun a hmem => (ha a hmem).shape) hget ho
  refine ⟨o₀, ho₀, fun field => ?_⟩
  cases augmentation with
  | none =>
    cases heq
    exact ObjectType.core_annotate _ _ _ _
  | some a => exact ((ha a rfl).core _ _ heq field).trans (ObjectType.core_annotate _ _ _ _)

/-- Bases are unions, and other structured types are objects. -/
theorem fieldsKey?_of_build (hd : d.WellNamed) {h : Hierarchy} (ho : h.Orders d.structuredTypes)
    (hshape : ∀ key, r.shape? key =
      ((Types.ofDocument service d h).get? key).map Descriptor.shape) {name : String}
    (hname : name ∈ d.typeNames) : r.types.fieldsKey? name = some (h.objectKey name) := by
  obtain ⟨F, hF, hfields⟩ := Types.exists_ofDocument_eq service ho hd
  rw [Types.fieldsKey?, Hierarchy.objectKey]
  by_cases hbase : h.isBase name = true
  · obtain ⟨u, hu, _⟩ := Types.get?_settled_union ho hd hfields hbase
    have hunion : r.shape? name = some (.union u.members) := by
      rw [hshape, hF, hu]
      rfl
    obtain ⟨u', hu', _⟩ := shape?_eq_union_iff.1 hunion
    rw [get?] at hu'
    rw [hu', if_pos hbase]
  · have hmember : Types.IsMember d h name name :=
      ⟨name, .inl rfl, by rw [Hierarchy.objectKey, if_neg hbase], fun hb => absurd hb hbase⟩
    obtain ⟨o, hobject⟩ := shape?_eq_object_iff.1 (shape?_of_isMember hd ho hshape hname hmember)
    rw [get?] at hobject
    rw [hobject, if_neg hbase]

/-- The object of a type has under every name the field of the nearest type that supplies one, from
the type itself upwards, and no others but its raw value and a placeholder in the place of none. -/
theorem fields_of_build (hd : d.WellNamed) (ha : ∀ a ∈ augmentation, a.KeepsFields)
    (hr : build service d augmentation = .ok r) :
    ∀ t ∈ d.structuredTypes, ∀ key o, r.concreteObject? t.name = some (key, o) →
      (d.HasSubtypes t.name ∧ key = baseKey t.name ∨ ¬ d.HasSubtypes t.name ∧ key = t.name) ∧
      (∀ field f, o.fields.get? field = some f → f.kind = .placeholder →
        field = placeholderField ∧ f.type = .scalar .void ∧ ¬ d.HasFields t.name) ∧
      ∀ field, field ≠ rawValueField →
        ((∃ f, o.fields.get? field = some f ∧ f.kind ≠ .placeholder) ↔
          ∃ top, ReflTransGen (Extends d.structuredTypes) t.name top ∧
            d.ContributesField field top) ∧
        ∀ type kind, kind ≠ .placeholder →
          ((∃ f, o.fields.get? field = some f ∧ f.core = (type, kind)) ↔
            d.Carries field t.name type kind) := by
  obtain ⟨h, hh, hget⟩ := exists_get?_of_build hr
  obtain ⟨h', hh', hshape⟩ := exists_shape?_of_build (fun a hmem => (ha a hmem).shape) hr
  cases hh.symm.trans hh'
  have ho := Hierarchy.orders_of_ofTypes hd.nodup hh
  obtain ⟨F, hF, hfields⟩ : ∃ F, Types.ofDocument service d h = _ ∧
    Types.InheritedFields service d h F := Types.exists_ofDocument_eq service ho hd
  intro t ht key o hconcrete
  have hname : t.name ∈ d.typeNames := List.mem_map_of_mem (f := (·.name)) ht
  obtain ⟨hkey, hobject⟩ := concreteObject?_eq_some_iff.1 hconcrete
  rw [fieldsKey?_of_build hd ho hshape hname, Option.some.injEq] at hkey
  subst hkey
  obtain ⟨o₀, hsettled, hcore⟩ :=
    exists_core_of_get? ha (hget _) (object?_eq_some_iff.1 hobject)
  rw [hF] at hsettled
  have hcases := hfields.get?_settled ho hd hname hsettled
  refine ⟨?_, fun field f hf hkind => ?_, fun field hfield => ?_⟩
  · rw [← Types.isBase_iff_hasSubtypes ho hname, Hierarchy.objectKey]
    by_cases hbase : h.isBase t.name = true <;> simp [hbase]
  · obtain ⟨f₀, hf₀, hcore⟩ := Field.exists_of_map_core (hcore field).symm hf
    have hkind₀ : f₀.kind = .placeholder := (congrArg Prod.snd hcore).trans hkind
    rcases hcases with heq | ⟨hno, heq⟩
    · exact absurd hkind₀ (hfields.kind_ne_placeholder hname (heq ▸ hf₀))
    · rw [heq, OrderedMap.get?_insert] at hf₀
      split at hf₀
      · rename_i hplaceholder
        cases hf₀
        exact ⟨hplaceholder, (congrArg Prod.fst hcore).symm, hno⟩
      · exact absurd hkind₀ (hfields.kind_ne_placeholder hname hf₀)
  · have hiff : ∀ type kind, kind ≠ .placeholder →
        ((∃ f, o.fields.get? field = some f ∧ f.core = (type, kind)) ↔
          d.Carries field t.name type kind) := by
      intro type kind hkind
      rw [← hfields.exists_core_iff ho hd hname hfield]
      simp only [← Option.map_eq_some_iff, hcore]
      rcases hcases with heq | ⟨hno, heq⟩
      · rw [heq]
      · rw [heq, OrderedMap.get?_insert]
        split
        · rw [hfields.get?_eq_none ho hd hname hno hfield]
          simp [Field.core, Types.placeholder, hkind.symm]
        · rfl
    refine ⟨?_, hiff⟩
    rw [← Csdl.Document.exists_carries_iff]
    constructor
    · rintro ⟨f, hf, hkind⟩
      exact ⟨f.type, f.kind, (hiff _ _ hkind).1 ⟨f, hf, rfl⟩⟩
    · rintro ⟨type, kind, hcarries⟩
      obtain ⟨f, hf, hcore⟩ := (hiff _ _ hcarries.kind_ne_placeholder).2 hcarries
      exact ⟨f, hf, (congrArg Prod.snd hcore).trans_ne hcarries.kind_ne_placeholder⟩

theorem carries_kennel : kennel.Carries "Breed" "Puppy" (.scalar .string) .property := by
  have hsupplies : kennel.Supplies "Breed" "Dog" (.scalar .string) .property := by
    have hparse : TypeRef.parse "Edm.String" = ⟨false, "Edm.String"⟩ := by decide
    have hscalar : Scalar.ofPrimitive? "Edm.String" = some .string := by decide
    have hrep : kennel.Represents "Edm.String" := by
      rw [Csdl.Document.Represents, hparse, hscalar]
      exact .inl rfl
    refine .member (m := { name := "Breed", type := "Edm.String" })
      ⟨[], [], rfl, ⟨rfl, hrep⟩, fun _ h => absurd h List.not_mem_nil⟩ ?_
    rw [hparse]
    exact .scalar hscalar
  have hnone : ∀ t kind, ¬ kennel.Supplies "Breed" "Puppy" t kind := by
    rintro _ _ (hm | ⟨_, hg, _, _⟩)
    · exact absurd hm.mem List.not_mem_nil
    · exact absurd hg.mem List.not_mem_nil
  exact .base hnone (extends_kennel_iff.2 (.inr ⟨rfl, rfl⟩)) (.own hsupplies)

theorem fields_of_kennel :
    ∃ r o, build ⟨"zoo", "http://zoo.test/odata"⟩ kennel = .ok r ∧
      r.concreteObject? "Puppy" = some ("Puppy", o) ∧
      ∃ f, o.fields.get? "Breed" = some f ∧ f.core = (.scalar .string, .property) := by
  have hbuilds : ((build ⟨"zoo", "http://zoo.test/odata"⟩ kennel).toOption.bind
      (·.concreteObject? "Puppy")).map Prod.fst = some "Puppy" := by
    decide
  cases hr : build ⟨"zoo", "http://zoo.test/odata"⟩ kennel with
  | error error => rw [hr] at hbuilds; cases hbuilds
  | ok r =>
    rw [hr] at hbuilds
    obtain ⟨⟨key, o⟩, ho, rfl⟩ := Option.map_eq_some_iff.1 hbuilds
    have ho : r.concreteObject? "Puppy" = some ("Puppy", o) := ho
    obtain ⟨_, _, hfields⟩ := fields_of_build wellNamed_kennel (fun _ h => by cases h) hr _
      (List.mem_cons_of_mem _ (List.mem_cons_of_mem _ List.mem_cons_self)) _ _ ho
    exact ⟨r, o, rfl, ho, ((hfields "Breed" (by decide)).2 _ _ (by decide)).2 carries_kennel⟩

end Registry

end ODataGraph
