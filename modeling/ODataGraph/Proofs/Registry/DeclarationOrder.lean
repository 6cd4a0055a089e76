import Mathlib.Data.List.Nodup
import ODataGraph.Proofs.Registry.Likeness
import ODataGraph.Proofs.Registry.Shape

/-!
The order in which a document declares its types. It decides on the order of the types in the
registry and on that of the members of unions, and on nothing else.
-/

namespace ODataGraph

open Csdl (StructuredType Extends)
open Relation (TransGen)

namespace OrderedMap

variable {α : Type*} {β : Type*} [DecidableEq α] {m m' : OrderedMap α β}

theorem get?_eq_of_perm (h : m.entries.Perm m'.entries) (k : α) : m.get? k = m'.get? k := by
  apply Option.ext
  intro v
  rw [← mem_entries_iff, ← mem_entries_iff, h.mem_iff]

theorem contains_eq_of_perm (h : m.entries.Perm m'.entries) (k : α) :
    m.contains k = m'.contains k := by
  rw [Bool.eq_iff_iff, contains_iff, contains_iff]
  exact (h.map Prod.fst).mem_iff

/-- Where no key comes twice, it does not matter in what order entries are inserted. -/
theorem get?_ofList_eq_of_perm {l l' : List (α × β)} (hl : (l.map Prod.fst).Nodup) (h : l.Perm l')
    (k : α) : (ofList l).get? k = (ofList l').get? k := by
  apply get?_eq_of_perm
  rw [entries_ofList hl, entries_ofList ((h.map Prod.fst).nodup_iff.1 hl)]
  exact h

end OrderedMap

namespace Csdl.Document

/-- The same document with its types in another order. -/
structure Reorders (d d' : Csdl.Document) : Prop where
  structuredTypes : d.structuredTypes.Perm d'.structuredTypes
  enumTypes : d.enumTypes.Perm d'.enumTypes
  functions : d.functions = d'.functions
  container : d.container = d'.container
  annotations : d.annotations = d'.annotations

namespace Reorders

variable {d d' : Csdl.Document} {name : String}

theorem typeNames (h : d.Reorders d') : d.typeNames.Perm d'.typeNames :=
  h.structuredTypes.map _

theorem declaredNames (h : d.Reorders d') : d.declaredNames.Perm d'.declaredNames :=
  (h.enumTypes.map _).append h.typeNames

theorem referencedNames (h : d.Reorders d') : d.referencedNames.Perm d'.referencedNames := by
  rw [Document.referencedNames, Document.referencedNames, h.functions, h.container]
  apply List.Perm.append_right
  apply List.Perm.append_right
  apply List.Perm.append_right
  exact (h.structuredTypes.filterMap _).append (h.structuredTypes.flatMap_right _)

theorem wellNamed (h : d.Reorders d') (hd : d.WellNamed) : d'.WellNamed where
  nodup := h.typeNames.nodup_iff.1 hd.nodup
  not_isBaseKey name hname :=
    hd.not_isBaseKey name ((h.declaredNames.append h.referencedNames).mem_iff.2 hname)

theorem extends_eq (h : d.Reorders d') :
    Extends d.structuredTypes = Extends d'.structuredTypes := by
  funext name base
  rw [Extends, Extends, (h.structuredTypes.map (·.name)).mem_iff]
  simp only [h.structuredTypes.mem_iff]

end Reorders

/-- The types of a document from the last to the first. -/
def reversed (d : Csdl.Document) : Csdl.Document :=
  { d with
    structuredTypes := d.structuredTypes.reverse
    enumTypes := d.enumTypes.reverse }

theorem reorders_reversed (d : Csdl.Document) : d.Reorders d.reversed where
  structuredTypes := (List.reverse_perm _).symm
  enumTypes := (List.reverse_perm _).symm
  functions := rfl
  container := rfl
  annotations := rfl

end Csdl.Document

namespace Hierarchy

theorem bases_perm {types types' : List StructuredType} (hnodup : (types.map (·.name)).Nodup)
    (h : types.Perm types') : (bases types).entries.Perm (bases types').entries := by
  refine (List.perm_ext_iff_of_nodup (bases types).nodup.of_map (bases types').nodup.of_map).2 ?_
  rintro ⟨name, base⟩
  rw [mem_bases hnodup, mem_bases ((h.map (·.name)).nodup_iff.1 hnodup), Extends, Extends,
    (h.map (·.name)).mem_iff]
  simp only [h.mem_iff]

theorem ready_perm {pending pending' : OrderedMap String String}
    (h : pending.entries.Perm pending'.entries) : (ready pending).Perm (ready pending') := by
  rw [ready, ready]
  simp only [OrderedMap.contains_eq_of_perm h]
  exact h.filter _

/-- In each round the same pairs are ready, in whatever order they come. -/
theorem order_perm (rounds : Nat) {pending pending' : OrderedMap String String}
    (h : pending.entries.Perm pending'.entries) :
    (∃ names names', order rounds pending = .error names ∧ order rounds pending' = .error names' ∧
      names.Perm names') ∨
    ∃ edges edges', order rounds pending = .ok edges ∧ order rounds pending' = .ok edges' := by
  have hempty : pending.isEmpty = pending'.isEmpty := h.isEmpty_eq
  induction rounds generalizing pending pending' with
  | zero =>
    rw [order, order, ← hempty]
    split
    · exact .inr ⟨[], [], rfl, rfl⟩
    · exact .inl ⟨_, _, rfl, rfl, h.map Prod.fst⟩
  | succ rounds ih =>
    rw [order, order]
    dsimp only
    rw [← hempty, ← (ready_perm h).isEmpty_eq]
    split
    · exact .inr ⟨[], [], rfl, rfl⟩
    split
    · exact .inl ⟨_, _, rfl, rfl, h.map Prod.fst⟩
    have hlater : (pending.filter fun name _ =>
          !((ready pending).map Prod.fst).contains name).entries.Perm
        (pending'.filter fun name _ =>
          !((ready pending').map Prod.fst).contains name).entries := by
      rw [entries_filter_ready, entries_filter_ready]
      simp only [OrderedMap.contains_eq_of_perm h]
      exact h.filter _
    obtain ⟨names, names', hnames, hnames', hperm⟩ | ⟨later, later', hok, hok'⟩ :=
      ih hlater hlater.isEmpty_eq
    · rw [hnames, hnames']
      exact .inl ⟨names, names', rfl, rfl, hperm⟩
    · rw [hok, hok']
      exact .inr ⟨_, _, rfl, rfl⟩

theorem sorted_eq_of_perm {names names' : List String} (h : names.Perm names') :
    sorted names = sorted names' := by
  have hperm : (sorted names).Perm (sorted names') :=
    (List.mergeSort_perm names _).trans (h.trans (List.mergeSort_perm names' _).symm)
  exact hperm.eq_of_pairwise (fun _ _ _ _ => String.le_antisymm) (pairwise_sorted names)
    (pairwise_sorted names')

/-- Types are refused in every order, and with one error, or in none. -/
theorem ofTypes_perm {types types' : List StructuredType} (hnodup : (types.map (·.name)).Nodup)
    (h : types.Perm types') :
    (∃ names, ofTypes types = .error (.inheritanceCycle names) ∧
      ofTypes types' = .error (.inheritanceCycle names)) ∨
    ∃ h h', ofTypes types = .ok h ∧ ofTypes types' = .ok h' := by
  have hbases := bases_perm hnodup h
  have hsize : (bases types).size = (bases types').size := hbases.length_eq
  rw [ofTypes, ofTypes, ← hsize]
  obtain ⟨names, names', hnames, hnames', hperm⟩ | ⟨edges, edges', hok, hok'⟩ :=
    order_perm (bases types).size hbases
  · rw [hnames, hnames']
    exact .inl ⟨sorted names, rfl, by rw [sorted_eq_of_perm hperm]⟩
  · rw [hok, hok']
    exact .inr ⟨_, _, rfl, rfl⟩

namespace Sorts

variable {h h' : Hierarchy} {R : String → String → Prop}

theorem isBase_eq (ho : h.Sorts R) (ho' : h'.Sorts R) (name : String) :
    h.isBase name = h'.isBase name := by
  rw [Bool.eq_iff_iff, ho.isBase_iff, ho'.isBase_iff]

theorem objectKey_eq (ho : h.Sorts R) (ho' : h'.Sorts R) : h.objectKey = h'.objectKey := by
  funext name
  rw [objectKey, objectKey, ho.isBase_eq ho']

theorem unionMembers_perm (ho : h.Sorts R) (ho' : h'.Sorts R)
    (hnames : ∀ name base, R name base → ¬ IsBaseKey name) (root : String) :
    (h.unionMembers root).Perm (h'.unionMembers root) := by
  obtain ⟨below, hmembers, hnodup, hbelow⟩ :=
    unionMembers_eq ho (fun name base hext hv => hnames name base hext hv.isBaseKey) root
  obtain ⟨below', hmembers', hnodup', hbelow'⟩ :=
    unionMembers_eq ho' (fun name base hext hv => hnames name base hext hv.isBaseKey) root
  rw [hmembers, hmembers', ho.objectKey_eq ho']
  apply List.Perm.append_right
  apply List.Perm.map
  refine (List.perm_ext_iff_of_nodup hnodup hnodup').2 fun name => ?_
  rw [hbelow, hbelow']

end Sorts

end Hierarchy

namespace Types

variable {service : Service} {d d' : Csdl.Document} {h h' : Hierarchy}

theorem get?_foldl_addEnum_eq_of_perm {l l' : List Csdl.EnumType} (hnodup : (l.map (·.name)).Nodup)
    (hl : l.Perm l') (key : String) :
    (l.foldl (addEnum service) ∅ : Types).get? key =
      (l'.foldl (addEnum service) ∅ : Types).get? key := by
  let entry (t : Csdl.EnumType) : String × Descriptor :=
    (t.name, .enum { name := service.typeName t.name, values := enumValues t.members })
  have hfold : ∀ l : List Csdl.EnumType,
      l.foldl (addEnum service) ∅ = OrderedMap.ofList (l.map entry) := by
    intro l
    rw [OrderedMap.ofList, List.foldl_map]
    rfl
  rw [hfold, hfold]
  apply OrderedMap.get?_ofList_eq_of_perm
  · rw [List.map_map]
    exact hnodup
  · exact hl.map _

theorem get?_declared_eq (hr : d.Reorders d') (henums : (d.enumTypes.map (·.name)).Nodup)
    (key : String) : (declared service d).get? key = (declared service d').get? key := by
  rw [get?_declared, get?_declared, get?_foldl_addEnum_eq_of_perm henums hr.enumTypes]
  simp only [hr.typeNames.mem_iff]

/-- The united types of reordered documents differ in the order of members. -/
theorem united_alike (hd : d.WellNamed) (hr : d.Reorders d')
    (henums : (d.enumTypes.map (·.name)).Nodup) (ho : h.Orders d.structuredTypes)
    (ho' : h'.Orders d'.structuredTypes) : (united service d h).Alike (united service d' h') := by
  have hsorts : h'.Sorts (Extends d.structuredTypes) := hr.extends_eq ▸ ho'
  intro key
  rw [get?_united (hd.fits ho), get?_united ((hr.wellNamed hd).fits ho')]
  have hbase : ∀ name, name ∈ h.baseNames ↔ name ∈ h'.baseNames := by
    intro name
    rw [ho.mem_baseNames, hsorts.mem_baseNames]
  simp only [List.mem_map, hbase, get?_declared_eq hr henums]
  split
  · exact .some (.union (ho.unionMembers_perm hsorts (fun _ _ => hd.of_extends) key))
  · split
    · exact .some (.refl _)
    · cases (declared service d').get? key with
      | none => exact .none
      | some t => exact .some (.refl t)

theorem eq_of_perm_of_length_le {α : Type*} {l l' : List α} (hlength : l.length ≤ 1)
    (h : l.Perm l') : l = l' := by
  match l with
  | [] => exact h.nil_eq
  | [_] => exact h.singleton_eq
  | _ :: _ :: _ => simp at hlength

/-- There is one type of a name, whatever the order. -/
theorem filter_name_eq (hd : d.WellNamed) (hr : d.Reorders d') (name : String) :
    d.structuredTypes.filter (·.name == name) = d'.structuredTypes.filter (·.name == name) := by
  apply eq_of_perm_of_length_le ?_ (hr.structuredTypes.filter _)
  have hnames : ((d.structuredTypes.filter (·.name == name)).map (·.name)).length ≤ 1 := by
    have hfilter := filter_beq_of_nodup hd.nodup name
    rw [Csdl.Document.typeNames, List.filter_map] at hfilter
    refine (congrArg List.length hfilter).le.trans ?_
    split <;> simp
  simpa using hnames

theorem ownMap_eq (hd : d.WellNamed) (hr : d.Reorders d') {ts ts' : Types}
    (hts : ∀ name ∈ d.referencedNames, ts.contains name = true ↔ ts'.contains name = true) :
    ts.ownMap d = ts'.ownMap d' := by
  rw [ownMap_congr hts]
  funext name
  rw [ownMap, ownMap, ownFields, ownFields, ← hr.functions, filter_name_eq hd hr]

/-- The types of a document are the same in every order of declarations, up to the order of the
members of unions. -/
theorem ofDocument_alike (hd : d.WellNamed) (hr : d.Reorders d')
    (henums : (d.enumTypes.map (·.name)).Nodup) (ho : h.Orders d.structuredTypes)
    (ho' : h'.Orders d'.structuredTypes) :
    (ofDocument service d h).Alike (ofDocument service d' h') := by
  have hd' := hr.wellNamed hd
  have hsorts : h'.Sorts (Extends d.structuredTypes) := hr.extends_eq ▸ ho'
  obtain ⟨F, hF, hcomplete⟩ := exists_ofDocument_complete service ho hd
  obtain ⟨F', hF', hcomplete'⟩ := exists_ofDocument_complete service ho' hd'
  have hknown : ∀ name ∈ d.referencedNames,
      (united service d h).contains name = true ↔ (united service d' h').contains name = true := by
    intro name hname
    rw [contains_united_of_referenced ho hd name hname,
      contains_united_of_referenced ho' hd' name (hr.referencedNames.mem_iff.1 hname),
      hr.declaredNames.mem_iff]
  have hfields : ∀ name ∈ d.typeNames, F (h.objectKey name) = F' (h.objectKey name) := by
    intro name hname
    have hnames : Complete d.typeNames (Extends d.structuredTypes) ((united service d h).ownMap d)
        (F' ∘ h.objectKey) := by
      rw [ownMap_eq hd hr hknown, hr.extends_eq, ho.objectKey_eq hsorts]
      exact ⟨fun name hname => hcomplete'.top name (hr.typeNames.mem_iff.1 hname), hcomplete'.below⟩
    have hsame : (F ∘ h.objectKey) name = (F' ∘ h.objectKey) name :=
      hcomplete.unique ho (fun hext => (Csdl.Document.typeNames_of_extends hext).2) hnames hname
    exact hsame
  rw [hF, hF']
  refine Alike.settleEmpty ?_ (settleable_placed ho hd) (settleable_placed ho' hd')
  refine (united_alike hd hr henums ho ho').setFields fun key o hobject => ?_
  rcases cases_get?_united (hd.fits ho) hobject with ⟨e, heq⟩ | ⟨name, hname, rfl, _⟩ | ⟨_, heq⟩
  · cases heq
  · exact hfields name hname
  · cases heq

end Types

namespace Registry

variable {d d' : Csdl.Document} {augmentation : Option Augmentation}

theorem annotate_eq (hr : d.Reorders d') : Descriptor.annotate d = Descriptor.annotate d' := by
  funext key t
  simp only [Descriptor.annotate, Csdl.Document.typeCapabilities, hr.annotations]

theorem ofContainer_eq (hr : d.Reorders d') (ts : Types) :
    Roots.ofContainer d ts = Roots.ofContainer d' ts := by
  have hadd : Roots.addEntry d ts = Roots.addEntry d' ts := by
    funext roots entry
    simp only [Roots.addEntry, listArguments, Csdl.Document.typeCapabilities, hr.annotations]
  rw [Roots.ofContainer, Roots.ofContainer, hadd, hr.container]

theorem plain_reorders (service : Service) (hd : d.WellNamed)
    (henums : (d.enumTypes.map (·.name)).Nodup) (hr : d.Reorders d') :
    (∃ names, plain service d = .error (.inheritanceCycle names) ∧
      plain service d' = .error (.inheritanceCycle names)) ∨
    ∃ r r', plain service d = .ok r ∧ plain service d' = .ok r' ∧ r.Alike r' := by
  rw [plain, plain]
  obtain ⟨names, herror, herror'⟩ | ⟨h, h', hh, hh'⟩ :=
    Hierarchy.ofTypes_perm hd.nodup hr.structuredTypes
  · rw [herror, herror']
    exact .inl ⟨names, rfl, rfl⟩
  have ho := Hierarchy.orders_of_ofTypes hd.nodup hh
  have ho' := Hierarchy.orders_of_ofTypes (hr.wellNamed hd).nodup hh'
  have htypes : Types.Alike ((Types.ofDocument service d h).map (Descriptor.annotate d))
      ((Types.ofDocument service d' h').map (Descriptor.annotate d')) := by
    rw [← annotate_eq hr]
    exact (Types.ofDocument_alike hd hr henums ho ho').map fun key _ _ halike =>
      halike.annotate d key
  have hroots := (htypes.ofContainer_eq d).trans (ofContainer_eq hr _)
  rw [hh, hh']
  refine .inr ⟨_, _, rfl, rfl, ?_⟩
  exact {
    service := rfl
    keys := htypes.keys_perm
    types := htypes
    entitySets := congrArg Roots.entitySets hroots
    queryRoot := congrArg (fun roots => ObjectType.queryRoot service roots.fields) hroots
    mutationRoot := rfl }

/-- Building does not depend on the order of declarations: in every order a document is refused for
the same cycle, or its registry is the same up to the order of types and of the members of
unions. -/
theorem build_reorders (service : Service) (hd : d.WellNamed)
    (henums : (d.enumTypes.map (·.name)).Nodup) (hr : d.Reorders d')
    (ha : ∀ a ∈ augmentation, a.IgnoresOrder) :
    (∃ names, build service d augmentation = .error (.inheritanceCycle names) ∧
      build service d' augmentation = .error (.inheritanceCycle names)) ∨
    ∃ r r', build service d augmentation = .ok r ∧ build service d' augmentation = .ok r' ∧
      r.Alike r' := by
  rw [build, build]
  obtain ⟨names, herror, herror'⟩ | ⟨r, r', hplain, hplain', halike⟩ :=
    plain_reorders service hd henums hr
  · rw [herror, herror']
    exact .inl ⟨names, rfl, rfl⟩
  · rw [hplain, hplain']
    cases augmentation with
    | none => exact .inr ⟨r, r', rfl, rfl, halike⟩
    | some a => exact .inr ⟨_, _, rfl, rfl, halike.augment (ha a rfl)⟩

/-- A type with two types below it, and two enums. -/
def shelter : Csdl.Document where
  enumTypes := [{ name := "Size" }, { name := "Mood" }]
  structuredTypes := [
    { name := "Animal", members := [{ name := "Name", type := "Edm.String" }] },
    { name := "Dog", base := some "Zoo.Animal"
      members := [{ name := "Size", type := "Zoo.Size" }] },
    { name := "Cat", base := some "Zoo.Animal"
      members := [{ name := "Mood", type := "Zoo.Mood" }] }]
  container := [{ kind := .entitySet, name := "Animals", type := "Zoo.Animal" }]

theorem wellNamed_shelter : shelter.WellNamed where
  nodup := by decide
  not_isBaseKey := by
    simp only [← isBaseKey_iff]
    decide

/-- Only the order of members tells one shelter from the other. -/
theorem build_reversed_shelter : ∃ r r',
    build ⟨"zoo", "http://zoo.test/odata"⟩ shelter = .ok r ∧
    build ⟨"zoo", "http://zoo.test/odata"⟩ shelter.reversed = .ok r' ∧ r.Alike r' ∧
    r.possibleTypes "Animal" = ["Dog", "Cat", "Animal_Base"] ∧
    r'.possibleTypes "Animal" = ["Cat", "Dog", "Animal_Base"] := by
  have hmembers : (build ⟨"zoo", "http://zoo.test/odata"⟩ shelter).toOption.map
      (possibleTypes · "Animal") = some ["Dog", "Cat", "Animal_Base"] := by
    decide
  have hmembers' : (build ⟨"zoo", "http://zoo.test/odata"⟩ shelter.reversed).toOption.map
      (possibleTypes · "Animal") = some ["Cat", "Dog", "Animal_Base"] := by
    decide
  have hnone : ∀ a ∈ (none : Option Augmentation), a.IgnoresOrder := nofun
  obtain ⟨names, herror, _⟩ | ⟨r, r', hr, hr', halike⟩ :=
    build_reorders ⟨"zoo", "http://zoo.test/odata"⟩ wellNamed_shelter (by decide)
      shelter.reorders_reversed hnone
  · rw [herror] at hmembers
    cases hmembers
  · rw [hr] at hmembers
    rw [hr'] at hmembers'
    exact ⟨r, r', hr, hr', halike, Option.some.inj hmembers, Option.some.inj hmembers'⟩

end Registry

end ODataGraph
