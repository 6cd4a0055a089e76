import ODataGraph.Proofs.Registry.Reference

/-!
What the types of a registry are called. Objects move to base keys, unions take their places, and
an object can take the place of a union again. Each is renamed when it moves, so that the name of
a type is at every moment the one that goes with its key, also where declared names clash.
-/

namespace ODataGraph

/-- An object is as it is made for its key, apart from its fields; other types have the name that
goes with theirs. -/
def Descriptor.MadeFor (service : Service) (key : String) : Descriptor → Prop
  | .object o => o = { ObjectType.bare service key with fields := o.fields }
  | .enum e => e.name = service.typeName key
  | .union u => u.name = service.typeName key

namespace Service

theorem typeName_inj {s : Service} {key other : String} :
    s.typeName key = s.typeName other ↔ key = other := by
  simp [typeName, String.append_assoc]

theorem typeName_ne_label (s : Service) (key : String) : s.typeName key ≠ s.label := by
  intro h
  have hlength := congrArg String.length h
  simp only [typeName, String.length_append] at hlength
  have hmark : "_".length = 1 := rfl
  omega

theorem typeName_ne_mutations (s : Service) (key : String) :
    s.typeName key ≠ s.label ++ "Mutations" := by
  intro h
  have hlist := congrArg String.toList h
  simp [typeName] at hlist

end Service

namespace Descriptor

variable {service : Service} {key : String} {t : Descriptor}

theorem MadeFor.name (h : t.MadeFor service key) : t.name = service.typeName key := by
  cases t with
  | object o => exact congrArg ObjectType.name h
  | enum e => exact h
  | union u => exact h

theorem MadeFor.setFields (ht : t.MadeFor service key) (fields : OrderedMap String Field) :
    (t.setFields fields).MadeFor service key := by
  cases t with
  | object o => exact congrArg (fun o => { o with fields }) ht
  | enum e => exact ht
  | union u => exact ht

/-- An object that is renamed for another key is made for that one. -/
theorem MadeFor.rename {o : ObjectType} (ho : (Descriptor.object o).MadeFor service key)
    {other name : String} (hname : name = service.typeName other) :
    (Descriptor.object { o with name }).MadeFor service other := by
  subst hname
  exact congrArg (fun o => { o with name := service.typeName other }) ho

@[simp] theorem name_annotate (d : Csdl.Document) (key : String) (t : Descriptor) :
    (t.annotate d key).name = t.name := by
  cases t <;> rfl

end Descriptor

namespace Types

variable {ts : Types} {service : Service} {key : String}

/-- Every type is made for its key. -/
def MadeFor (ts : Types) (service : Service) : Prop :=
  ∀ key t, ts.get? key = some t → t.MadeFor service key

theorem MadeFor.insert (hts : ts.MadeFor service) {t : Descriptor} (ht : t.MadeFor service key) :
    Types.MadeFor (OrderedMap.insert ts key t) service := by
  intro k t' ht'
  rw [OrderedMap.get?_insert] at ht'
  split at ht'
  · rename_i hk
    cases ht'
    exact hk ▸ ht
  · exact hts k t' ht'

theorem MadeFor.setFields (hts : ts.MadeFor service) (F : FieldMap) :
    (ts.setFields F).MadeFor service := by
  intro k t ht
  rw [get?_setFields, Option.map_eq_some_iff] at ht
  obtain ⟨t, ht, rfl⟩ := ht
  exact (hts k t ht).setFields (F k)

/-- The union takes over the name of the base, and the base's object gets an ending in its name as
in its key. -/
theorem MadeFor.addUnion (hts : ts.MadeFor service) (h : Hierarchy) (base : String) :
    (h.addUnion service ts base).MadeFor service := by
  rw [Hierarchy.addUnion]
  split
  · rename_i o ho
    have hname : o.name = service.typeName base := (hts base _ ho).name
    have hunion : (Descriptor.union (h.unionOf service base)).MadeFor service base := rfl
    refine (hts.insert hunion).insert ((hts base _ ho).rename ?_)
    rw [hname]
    simp only [Service.typeName, baseKey, String.append_assoc]
  · exact hts

/-- An object that takes the place of a union takes its name with it. -/
theorem MadeFor.settle (hts : ts.MadeFor service) (key : String) :
    (ts.settle key).MadeFor service := by
  intro k t ht
  cases t with
  | object o =>
    rcases object_of_settle ht with ⟨_, ho⟩ | ⟨o₀, name, ho₀, rfl, hname⟩
    · exact hts k _ ho
    · have hplaceholder : (Descriptor.object o₀.addPlaceholder).MadeFor service key :=
        (hts key _ ho₀).setFields _
      rcases hname with ⟨rfl, rfl⟩ | ⟨u, hu, rfl⟩
      · exact hplaceholder
      · exact hplaceholder.rename (hts k _ hu)
  | union u =>
    obtain ⟨u₀, hu₀, hname⟩ := union_of_settle ht
    exact hname.trans (hts k _ hu₀)
  | enum e => exact hts k _ (enum_of_settle ht)

theorem madeFor_declared (service : Service) (d : Csdl.Document) :
    (declared service d).MadeFor service := by
  have hempty : Types.MadeFor ∅ service := by rintro _ _ ⟨⟩
  have henum : ∀ ts : Types, ts.MadeFor service → ∀ e ∈ d.enumTypes,
      (addEnum service ts e).MadeFor service := fun _ hts _ _ => hts.insert rfl
  have hobject : ∀ ts : Types, ts.MadeFor service → ∀ t ∈ d.structuredTypes,
      (addObject service ts t).MadeFor service := fun _ hts _ _ => hts.insert rfl
  have henums : (d.enumTypes.foldl (addEnum service) ∅).MadeFor service :=
    List.foldlRecOn (motive := (MadeFor · service)) _ _ hempty henum
  exact List.foldlRecOn (motive := (MadeFor · service)) _ _ henums hobject

/-- Whatever the names of a document are, its types are called after their keys. -/
theorem madeFor_ofDocument (service : Service) (d : Csdl.Document) (h : Hierarchy) :
    (ofDocument service d h).MadeFor service := by
  obtain ⟨F, hF, _⟩ := exists_ofDocument_within service d h
  have hunion : ∀ ts : Types, ts.MadeFor service → ∀ base ∈ h.baseNames,
      (h.addUnion service ts base).MadeFor service := fun _ hts base _ => hts.addUnion h base
  have hunited : (united service d h).MadeFor service :=
    List.foldlRecOn (motive := (MadeFor · service)) _ _ (madeFor_declared service d) hunion
  rw [hF]
  exact List.foldlRecOn (motive := (MadeFor · service)) _ _ (hunited.setFields F)
    fun _ hts key _ => hts.settle key

end Types

namespace Registry

variable {service : Service} {d : Csdl.Document} {r : Registry}

theorem roots_of_build (hr : build service d = .ok r) :
    r.queryRoot.name = service.label ∧ r.mutationRoot.name = service.label ++ "Mutations" := by
  obtain ⟨_, _, hmade⟩ := exists_madeFrom_of_build hr
  rw [hmade.queryRoot, hmade.mutationRoot]
  exact ⟨rfl, rfl⟩

theorem name_of_get? (hr : build service d = .ok r) {key : String} {t : Descriptor}
    (ht : r.get? key = some t) : t.name = service.typeName key := by
  obtain ⟨h, _, hget⟩ := exists_get?_of_build hr
  rw [hget, Option.map_eq_some_iff] at ht
  obtain ⟨t, ht, rfl⟩ := ht
  rw [Option.getD_none, id, Descriptor.name_annotate]
  exact (Types.madeFor_ofDocument service d h key t ht).name

theorem get?_of_findByName? {name key : String} {t : Descriptor}
    (h : r.findByName? name = some (key, t)) : r.get? key = some t ∧ t.name = name := by
  rw [findByName?] at h
  exact ⟨OrderedMap.mem_entries_iff.1 (List.mem_of_find?_eq_some h),
    by simpa using List.find?_some h⟩

theorem exists_findByName? {key : String} {t : Descriptor} (ht : r.get? key = some t) :
    ∃ found, r.findByName? t.name = some found := by
  rw [← Option.isSome_iff_exists, findByName?, List.find?_isSome]
  exact ⟨(key, t), OrderedMap.mem_entries_iff.2 ht, beq_self_eq_true _⟩

/-- The first type of a name is the only one. -/
theorem findByName?_name (hr : build service d = .ok r) {key : String} {t : Descriptor}
    (ht : r.get? key = some t) : r.findByName? t.name = some (key, t) := by
  obtain ⟨⟨key', t'⟩, hfound⟩ := exists_findByName? ht
  obtain ⟨ht', hname⟩ := get?_of_findByName? hfound
  rw [name_of_get? hr ht, name_of_get? hr ht'] at hname
  cases Service.typeName_inj.1 hname
  cases ht.symm.trans ht'
  exact hfound

/-- Names and keys determine each other: the name of every type is made from its key, no two types
have one name, a type is found by its name, and no type is named like a root. -/
theorem names_of_build (hr : build service d = .ok r) :
    (∀ key t, r.get? key = some t → t.name = service.label ++ "_" ++ key) ∧
    (∀ key key' t t', r.get? key = some t → r.get? key' = some t' → t.name = t'.name →
      key = key') ∧
    (∀ key t, r.get? key = some t → r.findByName? t.name = some (key, t)) ∧
    ∀ key t, r.get? key = some t → t.name ≠ r.queryRoot.name ∧ t.name ≠ r.mutationRoot.name := by
  obtain ⟨hquery, hmutation⟩ := roots_of_build hr
  refine ⟨fun _ _ ht => name_of_get? hr ht, fun key key' t t' ht ht' hname => ?_,
    fun _ _ ht => findByName?_name hr ht, fun key t ht => ?_⟩
  · rw [name_of_get? hr ht, name_of_get? hr ht'] at hname
    exact Service.typeName_inj.1 hname
  · rw [name_of_get? hr ht, hquery, hmutation]
    exact ⟨service.typeName_ne_label key, service.typeName_ne_mutations key⟩

/-- A type that is named like the base variant of the type that it extends. -/
def stub : Csdl.Document where
  structuredTypes := [{ name := "Item" }, { name := "Item_Base", base := some "Zoo.Item" }]

/-- The type and the base variant share a key. The union is given up, and the object that was under
that key takes its place and name. -/
theorem names_of_stub : ∃ r, build ⟨"zoo", "http://zoo.test/odata"⟩ stub = .ok r ∧
    r.get? "Item_Base" = none ∧ ∃ o, r.findByName? "zoo_Item" = some ("Item", .object o) := by
  have hbuilds : (build ⟨"zoo", "http://zoo.test/odata"⟩ stub).toOption.map (fun r =>
      ((r.object? "Item").map ObjectType.name, (r.get? "Item_Base").isNone)) =
        some (some "zoo_Item", true) := by
    decide
  cases hr : build ⟨"zoo", "http://zoo.test/odata"⟩ stub with
  | error error => rw [hr] at hbuilds; cases hbuilds
  | ok r =>
    rw [hr] at hbuilds
    obtain ⟨hItem, hvariant⟩ := Prod.mk.inj (Option.some.inj hbuilds)
    obtain ⟨o, ho, hname⟩ := Option.map_eq_some_iff.1 hItem
    obtain ⟨_, _, hfound, _⟩ := names_of_build hr
    refine ⟨r, rfl, Option.isNone_iff_eq_none.1 hvariant, o, ?_⟩
    rw [← hname]
    exact hfound "Item" (.object o) (object?_eq_some_iff.1 ho)

end Registry

end ODataGraph
