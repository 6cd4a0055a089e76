import Mathlib.Data.List.Nodup
import Mathlib.Logic.Function.Basic
import ODataGraph.Proofs.Registry.Declaration
import ODataGraph.Proofs.Sequence

/-!
Placing fields. It changes nothing about types but the fields of objects, so that the types are at
every moment the united ones with some fields in the place of theirs.
-/

namespace ODataGraph

open Csdl (StructuredType Member Function Parameter TypeRef)

/-- The fields of objects by their keys. -/
abbrev FieldMap := String → OrderedMap String Field

def Descriptor.setFields (fields : OrderedMap String Field) : Descriptor → Descriptor
  | .object o => .object { o with fields }
  | t => t

namespace Types

/-- The same types with other fields. -/
def setFields (ts : Types) (F : FieldMap) : Types := ts.map fun key t => t.setFields (F key)

variable {ts : Types} {F : FieldMap} {key : String}

theorem get?_setFields (ts : Types) (F : FieldMap) (key : String) :
    (ts.setFields F).get? key = (ts.get? key).map (·.setFields (F key)) :=
  OrderedMap.get?_map _ _ _

@[simp] theorem keys_setFields (ts : Types) (F : FieldMap) : (ts.setFields F).keys = ts.keys :=
  OrderedMap.keys_map _ _

@[simp] theorem contains_setFields (ts : Types) (F : FieldMap) (key : String) :
    (ts.setFields F).contains key = ts.contains key := by
  rw [OrderedMap.contains, OrderedMap.contains, keys_setFields]

@[simp] theorem fieldsKey?_setFields (ts : Types) (F : FieldMap) (key : String) :
    (ts.setFields F).fieldsKey? key = ts.fieldsKey? key := by
  rw [fieldsKey?, fieldsKey?, get?_setFields]
  rcases ts.get? key with _ | (_ | _ | _) <;> rfl

theorem addFields_eq (o : ObjectType) (fields : List (String × Field)) :
    fields.foldl (fun o (name, f) => o.addNewField name f) o =
      { o with fields := o.fields.addNew fields } := by
  induction fields generalizing o with
  | nil => rfl
  | cons e rest ih =>
    rw [List.foldl_cons, ih]
    rfl

/-- What adding fields to a type does to the fields of objects. -/
def place (ts : Types) (F : FieldMap) (key : String) (fields : List (String × Field)) : FieldMap :=
  match ts.fieldsKey? key with
  | some objectKey => Function.update F objectKey ((F objectKey).addNew fields)
  | none => F

theorem place_self {objectKey : String} (h : ts.fieldsKey? key = some objectKey)
    (fields : List (String × Field)) :
    ts.place F key fields objectKey = (F objectKey).addNew fields := by
  rw [place, h]
  exact Function.update_self _ _ _

theorem place_of_ne {objectKey : String} (h : ts.fieldsKey? key ≠ some objectKey)
    (fields : List (String × Field)) : ts.place F key fields objectKey = F objectKey := by
  cases hother : ts.fieldsKey? key with
  | none => rw [place, hother]
  | some other =>
    have hne : objectKey ≠ other := fun heq => h (heq ▸ hother)
    rw [place, hother]
    exact Function.update_of_ne hne _ _

theorem modifyObject_setFields (ts : Types) (F : FieldMap) (key : String)
    (fields : List (String × Field)) :
    (ts.setFields F).modifyObject key (fun o => { o with fields := o.fields.addNew fields }) =
      ts.setFields (ts.place F key fields) := by
  rw [modifyObject, fieldsKey?_setFields, place]
  cases ts.fieldsKey? key with
  | none => rfl
  | some objectKey =>
    apply OrderedMap.ext
    simp only [setFields, OrderedMap.modify, OrderedMap.map, List.map_map]
    refine List.map_congr_left fun e _ => ?_
    rcases e with ⟨k, t⟩
    by_cases hk : k = objectKey
    · subst hk
      cases t <;> simp [Descriptor.setFields]
    · cases t <;> simp [Descriptor.setFields, hk]

theorem addFields_setFields (ts : Types) (F : FieldMap) (key : String)
    (fields : List (String × Field)) :
    (ts.setFields F).addFields key fields = ts.setFields (ts.place F key fields) := by
  rw [addFields, ← modifyObject_setFields]
  simp only [addFields_eq]

/-- Fields that are added to several types come to those of each in order. -/
theorem foldl_place {objectKey name : String} (ts : Types) (l : List (String × List (String × Field)))
    (F : FieldMap) (hkey : ∀ p ∈ l, ts.fieldsKey? p.1 = some objectKey ↔ p.1 = name) :
    (l.foldl (fun F p => ts.place F p.1 p.2) F) objectKey =
      (F objectKey).addNew ((l.filter (·.1 == name)).flatMap Prod.snd) := by
  induction l generalizing F with
  | nil => rfl
  | cons p rest ih =>
    rw [List.foldl_cons, ih _ fun q hq => hkey q (List.mem_cons_of_mem _ hq), List.filter_cons]
    have hp := hkey p List.mem_cons_self
    by_cases hname : p.1 = name
    · rw [place_self (hp.2 hname), if_pos (beq_iff_eq.2 hname), List.flatMap_cons,
        OrderedMap.addNew_append]
    · rw [place_of_ne fun hkey => hname (hp.1 hkey), if_neg fun heq => hname (beq_iff_eq.1 heq)]

theorem setFields_eq_self (h : ∀ key o, ts.get? key = some (.object o) → F key = o.fields) :
    ts.setFields F = ts := by
  apply OrderedMap.ext
  refine (List.map_congr_left fun e he => ?_).trans (List.map_id _)
  rcases e with ⟨key, _ | o | _⟩
  · rfl
  · simp only [Descriptor.setFields, h key o (OrderedMap.mem_entries_iff.1 he), id]
  · rfl

theorem setFields_united (service : Service) (d : Csdl.Document) (h : Hierarchy) :
    (united service d h).setFields
        (fun _ => (∅ : OrderedMap String Field).insert rawValueField rawValue) =
      united service d h :=
  setFields_eq_self fun _ _ ho => (plain_of_get?_united ho).1.symm

/-! Which types are known decides on the fields of members and functions, and nothing else does. -/

/-- The type that a reference stands for, or that it stands for a list of. -/
def element? (ts : Types) (ref : TypeRef) : Option TypeReference :=
  match Scalar.ofPrimitive? ref.qualifiedName with
  | some s => some (.scalar s)
  | none => if ts.contains ref.localName then some (.named ref.localName) else none

theorem resolve?_eq (ts : Types) (type : String) :
    ts.resolve? type = (ts.element? (.parse type)).map fun element =>
      if (TypeRef.parse type).isCollection then .list element else element :=
  rfl

theorem element?_eq_some_iff {ts : Types} {ref : TypeRef} {t : TypeReference} :
    ts.element? ref = some t ↔
      (∃ s, Scalar.ofPrimitive? ref.qualifiedName = some s ∧ t = .scalar s) ∨
      Scalar.ofPrimitive? ref.qualifiedName = none ∧ ts.contains ref.localName = true ∧
        t = .named ref.localName := by
  rw [element?]
  cases Scalar.ofPrimitive? ref.qualifiedName with
  | some s =>
    simp only [Option.some.injEq, exists_eq_left', reduceCtorEq, false_and, or_false]
    exact eq_comm
  | none =>
    simp only [Option.ite_none_right_eq_some, Option.some.injEq, reduceCtorEq, false_and,
      exists_false, true_and, false_or]
    exact and_congr_right fun _ => eq_comm

theorem resolve?_congr {ts ts' : Types} {type : String}
    (h : ts.contains (TypeRef.parse type).localName = ts'.contains (TypeRef.parse type).localName) :
    ts.resolve? type = ts'.resolve? type := by
  rw [resolve?, resolve?, h]

@[simp] theorem resolve?_setFields (ts : Types) (F : FieldMap) (type : String) :
    (ts.setFields F).resolve? type = ts.resolve? type :=
  resolve?_congr (contains_setFields _ _ _)

theorem memberField?_congr {ts ts' : Types} {m : Member} (h : ts.resolve? m.type = ts'.resolve? m.type) :
    ts.memberField? m = ts'.memberField? m := by
  rw [memberField?, memberField?, h]

theorem functionField?_congr {ts ts' : Types} {f : Function} {binding : String}
    (hreturn : ∀ type ∈ f.returnType, ts.resolve? type = ts'.resolve? type)
    (hparameters : ∀ p ∈ f.parameters, ts.resolve? p.type = ts'.resolve? p.type) :
    ts.functionField? f binding = ts'.functionField? f binding := by
  have harguments : (f.parameters.filter (·.name != binding)).mapM ts.argument? =
      (f.parameters.filter (·.name != binding)).mapM ts'.argument? := by
    refine mapM_option_congr fun p hp => ?_
    rw [argument?, argument?, hparameters p (List.mem_filter.1 hp).1]
  rw [functionField?, functionField?, harguments]
  cases htype : f.returnType with
  | none => rfl
  | some type => simp only [Option.bind_eq_bind, Option.bind_some, hreturn type htype]

theorem boundFields_congr {ts ts' : Types} {functions : List Function}
    (h : ∀ f ∈ functions, ∀ binding, ts.functionField? f binding = ts'.functionField? f binding) :
    ts.boundFields functions = ts'.boundFields functions := by
  refine List.filterMap_congr fun f hf => ?_
  simp only [h f (List.mem_filter.1 hf).1]

@[simp] theorem memberField?_setFields (ts : Types) (F : FieldMap) (m : Member) :
    (ts.setFields F).memberField? m = ts.memberField? m :=
  memberField?_congr (resolve?_setFields _ _ _)

@[simp] theorem boundFields_setFields (ts : Types) (F : FieldMap) (functions : List Function) :
    (ts.setFields F).boundFields functions = ts.boundFields functions :=
  boundFields_congr fun _ _ _ => functionField?_congr (fun _ _ => resolve?_setFields _ _ _)
    fun _ _ => resolve?_setFields _ _ _

/-- The fields that a type has by itself: those of its members, then those of functions. -/
def ownFields (ts : Types) (d : Csdl.Document) (name : String) : List (String × Field) :=
  (d.structuredTypes.filter (·.name == name)).flatMap (·.members.filterMap ts.memberField?) ++
    ((ts.boundFields d.functions).filter (·.1 == name)).map Prod.snd

theorem foldl_addMembers (ts : Types) (l : List StructuredType) (F : FieldMap) :
    l.foldl addMembers (ts.setFields F) =
      ts.setFields ((l.map fun t => (t.name, t.members.filterMap ts.memberField?)).foldl
        (fun F p => ts.place F p.1 p.2) F) := by
  induction l generalizing F with
  | nil => rfl
  | cons t rest ih =>
    rw [List.foldl_cons, addMembers, addFields_setFields, ih]
    simp

theorem foldl_addFields (ts : Types) (l : List String) (fields : String → List (String × Field))
    (F : FieldMap) :
    l.foldl (fun ts owner => ts.addFields owner (fields owner)) (ts.setFields F) =
      ts.setFields ((l.map fun owner => (owner, fields owner)).foldl
        (fun F p => ts.place F p.1 p.2) F) := by
  induction l generalizing F with
  | nil => rfl
  | cons owner rest ih =>
    rw [List.foldl_cons, addFields_setFields, ih]
    rfl

theorem filter_beq_of_nodup {l : List String} (hl : l.Nodup) (a : String) :
    l.filter (· == a) = if a ∈ l then [a] else [] := by
  rw [List.filter_beq]
  split
  · rename_i hmem
    rw [List.count_eq_one_of_mem hl hmem]
    rfl
  · rename_i hmem
    rw [List.count_eq_zero_of_not_mem hmem]
    rfl

/-- Every type gets its own fields. -/
theorem exists_addFunctions_eq (ts : Types) (d : Csdl.Document) (F : FieldMap)
    {objectKey : String → String}
    (hkey : ∀ name ∈ d.typeNames, ∀ other,
      other ∈ d.typeNames ∨ other ∈ (ts.boundFields d.functions).map Prod.fst →
      (ts.fieldsKey? other = some (objectKey name) ↔ other = name)) :
    ∃ G, (d.structuredTypes.foldl addMembers (ts.setFields F)).addFunctions d.functions =
        ts.setFields G ∧
      ∀ name ∈ d.typeNames, G (objectKey name) =
        (F (objectKey name)).addNew (ts.ownFields d name) := by
  rw [foldl_addMembers, addFunctions]
  simp only [boundFields_setFields, foldl_addFields]
  refine ⟨_, rfl, fun name hname => ?_⟩
  have hmembers : ∀ p ∈ d.structuredTypes.map fun t => (t.name, t.members.filterMap ts.memberField?),
      ts.fieldsKey? p.1 = some (objectKey name) ↔ p.1 = name := by
    intro p hp
    obtain ⟨t, ht, rfl⟩ := List.mem_map.1 hp
    exact hkey name hname _ (.inl (List.mem_map_of_mem (f := (·.name)) ht))
  have hfunctions : ∀ p ∈ ((ts.boundFields d.functions).map Prod.fst).eraseDups.map fun owner =>
      (owner, ((ts.boundFields d.functions).filter (·.1 == owner)).map Prod.snd),
      ts.fieldsKey? p.1 = some (objectKey name) ↔ p.1 = name := by
    intro p hp
    obtain ⟨owner, howner, rfl⟩ := List.mem_map.1 hp
    exact hkey name hname _ (.inr (List.mem_eraseDups.1 howner))
  rw [foldl_place ts _ _ hfunctions, foldl_place ts _ _ hmembers, ← OrderedMap.addNew_append,
    ownFields]
  congr 2
  · rw [List.filter_map, List.flatMap_map]
    rfl
  · rw [List.filter_map, List.flatMap_map]
    have howners := filter_beq_of_nodup
      (Hierarchy.nodup_eraseDups ((ts.boundFields d.functions).map Prod.fst)) name
    simp only [Function.comp_def, howners]
    split
    · simp
    · rename_i hmem
      have hnone : (ts.boundFields d.functions).filter (·.1 == name) = [] := by
        refine List.filter_eq_nil_iff.2 fun p hp heq => hmem ?_
        rw [List.mem_eraseDups, ← beq_iff_eq.1 heq]
        exact List.mem_map_of_mem hp
      simp [hnone]

end Types

end ODataGraph
