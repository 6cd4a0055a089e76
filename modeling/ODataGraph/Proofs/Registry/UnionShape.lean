import ODataGraph.Proofs.Reachability
import ODataGraph.Proofs.Registry.Settlement

/-!
The types of a document once they are settled: which names stand for unions, what their members
are, and which base variants are left out.
-/

namespace ODataGraph

open Csdl (StructuredType Extends)
open Relation (ReflTransGen TransGen)

namespace Csdl.Document

/-- A structured type names it as its base. -/
def HasSubtypes (d : Csdl.Document) (name : String) : Prop :=
  ∃ t ∈ d.structuredTypes, t.baseName = some name

/-- A type contributes fields, or one above it does. -/
def HasFields (d : Csdl.Document) (name : String) : Prop :=
  ∃ top, ReflTransGen (Extends d.structuredTypes) name top ∧ d.Contributes top

theorem HasFields.of_below {d : Csdl.Document} {name base : String} (h : d.HasFields base)
    (hway : ReflTransGen (Extends d.structuredTypes) name base) : d.HasFields name := by
  obtain ⟨top, htop, hcontributes⟩ := h
  exact ⟨top, hway.trans htop, hcontributes⟩

end Csdl.Document

namespace Hierarchy

variable {R : String → String → Prop} {h : Hierarchy} {name base root : String}

theorem Sorts.finite_below (ho : h.Sorts R) (root : String) :
    {name | ReflTransGen (flip R) root name}.Finite := by
  refine ((List.finite_toSet (h.edges.map Prod.fst)).insert root).subset fun name hway => ?_
  rcases hway.cases_tail with rfl | ⟨base, _, hlast⟩
  · exact Set.mem_insert _ _
  · have hedge : (name, base) ∈ h.edges := ho.mem_edges_iff.2 hlast
    exact Set.mem_insert_of_mem _ (List.mem_map_of_mem (f := Prod.fst) hedge)

/-- Below every base there is a type that nothing extends. -/
theorem Sorts.exists_leaf (ho : h.Sorts R) (hbase : h.isBase root = true) :
    ∃ leaf, TransGen R leaf root ∧ ¬ h.isBase leaf = true := by
  have hacyclic : ∀ name, ¬ TransGen (flip R) name name := fun name hcycle =>
    ho.not_transGen name (Relation.transGen_swap.1 hcycle)
  have hacc : Acc (flip (flip R)) root :=
    acc_of_acyclic (ho.finite_below root) fun name _ => hacyclic name
  induction hacc with
  | intro root _ ih =>
    obtain ⟨child, hchild⟩ := ho.isBase_iff.1 hbase
    by_cases hmore : h.isBase child = true
    · obtain ⟨leaf, hway, hleaf⟩ := ih child hchild hmore
      exact ⟨leaf, hway.tail hchild, hleaf⟩
    · exact ⟨child, .single hchild, hmore⟩

/-- The members of a union are distinct, and one of them is a type that extends another. -/
theorem Sorts.members_unionMembers (ho : h.Sorts R)
    (hnames : ∀ name base, R name base → ¬ h.IsVariant name) (hbase : h.isBase root = true) :
    (h.unionMembers root).Nodup ∧ ∃ m ∈ h.unionMembers root, ∃ base, R m base := by
  obtain ⟨below, hmembers, hnodup, hbelow⟩ := unionMembers_eq ho hnames root
  have hextends : ∀ y ∈ below, ∃ base, R y base := by
    intro y hy
    obtain ⟨b, hb, _⟩ := TransGen.head'_iff.1 ((hbelow y).1 hy)
    exact ⟨b, hb⟩
  have hvariant : ∀ y ∈ below, ¬ h.IsVariant y := by
    intro y hy
    obtain ⟨b, hb⟩ := hextends y hy
    exact hnames y b hb
  rw [hmembers]
  refine ⟨List.nodup_append.2 ⟨?_, List.nodup_singleton _, ?_⟩, ?_⟩
  · exact List.Nodup.map_on (fun a ha b hb heq =>
      objectKey_inj_of_not_isVariant (hvariant a ha) (hvariant b hb) heq) hnodup
  · rintro m hm _ hroot rfl
    obtain ⟨y, hy, rfl⟩ := List.mem_map.1 hm
    rw [List.mem_singleton, objectKey] at hroot
    split at hroot
    · cases baseKey_inj.1 hroot
      exact ho.not_transGen root ((hbelow root).1 hy)
    · exact hvariant y hy ⟨root, hbase, hroot⟩
  · obtain ⟨leaf, hway, hleaf⟩ := ho.exists_leaf hbase
    have hmem := (hbelow leaf).2 hway
    refine ⟨leaf, List.mem_append_left _ (List.mem_map.2 ⟨leaf, hmem, ?_⟩), hextends leaf hmem⟩
    rw [objectKey, if_neg hleaf]

end Hierarchy

namespace Types

variable {service : Service} {d : Csdl.Document} {h : Hierarchy} {F : FieldMap} {key name : String}

theorem isBase_iff_hasSubtypes (ho : h.Orders d.structuredTypes) (hname : name ∈ d.typeNames) :
    h.isBase name = true ↔ d.HasSubtypes name := by
  rw [ho.isBase_iff]
  constructor
  · rintro ⟨_, t, ht, _, hbase, _⟩
    exact ⟨t, ht, hbase⟩
  · rintro ⟨t, ht, hbase⟩
    exact ⟨t.name, t, ht, rfl, hbase, hname⟩

theorem get?_placed_object (ho : h.Orders d.structuredTypes) (hd : d.WellNamed)
    (hname : name ∈ d.typeNames) :
    ((united service d h).setFields F).get? (h.objectKey name) =
      some (.object { ObjectType.bare service (h.objectKey name) with
        fields := F (h.objectKey name) }) := by
  rw [get?_setFields, get?_united_objectKey (hd.fits ho) hname]
  rfl

theorem get?_placed_union (ho : h.Orders d.structuredTypes) (hd : d.WellNamed)
    (hbase : h.isBase name = true) :
    ((united service d h).setFields F).get? name = some (.union (h.unionOf service name)) := by
  rw [get?_setFields, get?_united_of_isBase (hd.fits ho) hbase]
  rfl

theorem cases_get?_placed (ho : h.Orders d.structuredTypes) (hd : d.WellNamed) {t : Descriptor}
    (ht : ((united service d h).setFields F).get? key = some t) :
    (∃ e, t = .enum e) ∨
    (∃ name ∈ d.typeNames, key = h.objectKey name ∧
      t = .object { ObjectType.bare service key with fields := F key }) ∨
    (h.isBase key = true ∧ t = .union (h.unionOf service key)) := by
  rw [get?_setFields] at ht
  obtain ⟨t', ht', rfl⟩ := Option.map_eq_some_iff.1 ht
  rcases cases_get?_united (hd.fits ho) ht' with ⟨e, rfl⟩ | ⟨name, hname, hkey, rfl⟩ | ⟨hbase, rfl⟩
  · exact .inl ⟨e, rfl⟩
  · exact .inr (.inl ⟨name, hname, hkey, rfl⟩)
  · exact .inr (.inr ⟨hbase, rfl⟩)

theorem settleable_placed (ho : h.Orders d.structuredTypes) (hd : d.WellNamed) :
    ((united service d h).setFields F).Settleable where
  union_of_base {name o} hbase := by
    rcases cases_get?_placed ho hd hbase with ⟨e, heq⟩ | ⟨x, hx, hkey, _⟩ | ⟨_, heq⟩
    · cases heq
    · rw [Hierarchy.objectKey] at hkey
      split at hkey
      · rename_i hisBase
        cases baseKey_inj.1 hkey
        exact ⟨_, get?_placed_union ho hd hisBase⟩
      · exact absurd ⟨name, hkey.symm⟩ (hd.of_typeNames hx)
    · cases heq
  members {key u} hu := by
    rcases cases_get?_placed ho hd hu with ⟨e, heq⟩ | ⟨x, hx, hkey, heq⟩ | ⟨hisBase, heq⟩
    · cases heq
    · cases heq
    · cases heq
      obtain ⟨hnodup, m, hm, _, hext⟩ :=
        ho.members_unionMembers (fun _ _ => hd.not_isVariant_of_extends) hisBase
      exact ⟨hnodup, m, hm, hd.of_extends hext⟩

theorem hasDeclaredFields_iff {o : ObjectType} :
    o.hasDeclaredFields = true ↔ ∃ field f, o.fields.get? field = some f ∧ f.isDeclared = true := by
  simp only [ObjectType.hasDeclaredFields, OrderedMap.values, List.any_map, List.any_eq_true,
    Function.comp_apply, Prod.exists, OrderedMap.mem_entries_iff]

/-- The objects without declared fields are those of types that have none from anywhere. -/
theorem mem_emptyKeys_placed (ho : h.Orders d.structuredTypes) (hd : d.WellNamed)
    (hF : ∀ name ∈ d.typeNames, ∀ field f, (F (h.objectKey name)).get? field = some f ↔
      Inherits (Extends d.structuredTypes) ((united service d h).ownMap d) field name f)
    (hname : name ∈ d.typeNames) :
    h.objectKey name ∈ ((united service d h).setFields F).emptyKeys ↔ ¬ d.HasFields name := by
  have hdeclared : (∃ field f, Inherits (Extends d.structuredTypes)
      ((united service d h).ownMap d) field name f ∧ f.isDeclared = true) ↔ d.HasFields name :=
    exists_declared_iff (contains_united_of_referenced ho hd)
  rw [mem_emptyKeys, ← hdeclared]
  simp only [get?_placed_object ho hd hname, Option.some.injEq, Descriptor.object.injEq,
    exists_eq_left', ← Bool.not_eq_true, hasDeclaredFields_iff, hF name hname]

/-- The fields that structured types have by themselves or from above. -/
def InheritedFields (service : Service) (d : Csdl.Document) (h : Hierarchy) (F : FieldMap) : Prop :=
  ∀ name ∈ d.typeNames, ∀ field f, (F (h.objectKey name)).get? field = some f ↔
    Inherits (Extends d.structuredTypes) ((united service d h).ownMap d) field name f

theorem get?_settled_object (ho : h.Orders d.structuredTypes) (hd : d.WellNamed)
    (hF : InheritedFields service d h F) (hname : name ∈ d.typeNames) (hfields : d.HasFields name) :
    ((united service d h).setFields F).settleEmpty.get? (h.objectKey name) =
      some (.object { ObjectType.bare service (h.objectKey name) with
        fields := F (h.objectKey name) }) := by
  have hnot := (not_congr (mem_emptyKeys_placed ho hd hF hname)).2 (not_not_intro hfields)
  rw [get?_settleEmpty (settleable_placed ho hd), if_neg fun hempty => hnot hempty.1,
    get?_placed_object ho hd hname, Option.map_some, settled, if_neg hnot]
  rfl

/-- A type that nothing extends stays, with a placeholder if it has no fields. -/
theorem get?_settled_empty (ho : h.Orders d.structuredTypes) (hd : d.WellNamed)
    (hF : InheritedFields service d h F) (hname : name ∈ d.typeNames)
    (hleaf : ¬ h.isBase name = true) (hfields : ¬ d.HasFields name) :
    ((united service d h).setFields F).settleEmpty.get? name =
      some (.object { ObjectType.bare service name with
        fields := (F name).insert placeholderField placeholder }) := by
  have hkey : h.objectKey name = name := by rw [Hierarchy.objectKey, if_neg hleaf]
  have hempty := (mem_emptyKeys_placed ho hd hF hname).2 hfields
  have hobject : ((united service d h).setFields F).get? (h.objectKey name) = _ :=
    get?_placed_object ho hd hname
  rw [hkey] at hempty hobject
  rw [get?_settleEmpty (settleable_placed ho hd), if_neg, hobject, Option.map_some, settled,
    if_pos hempty]
  · rfl
  · exact fun hbase => hd.of_typeNames hname (isBaseKey_iff.1 hbase.2)

/-- The base variant of a type without fields is left out. -/
theorem get?_settled_baseKey (ho : h.Orders d.structuredTypes) (hd : d.WellNamed)
    (hF : InheritedFields service d h F) (hname : name ∈ d.typeNames)
    (hbase : h.isBase name = true) (hfields : ¬ d.HasFields name) :
    ((united service d h).setFields F).settleEmpty.get? (baseKey name) = none := by
  have hkey : h.objectKey name = baseKey name := by rw [Hierarchy.objectKey, if_pos hbase]
  have hempty := (mem_emptyKeys_placed ho hd hF hname).2 hfields
  rw [hkey] at hempty
  rw [get?_settleEmpty (settleable_placed ho hd),
    if_pos ⟨hempty, isBaseKey_iff.2 (isBaseKey_baseKey name)⟩]

/-- The object of a type below another, as long as that is in the registry. -/
def IsMember (d : Csdl.Document) (h : Hierarchy) (name m : String) : Prop :=
  ∃ y, (y = name ∨ TransGen (Extends d.structuredTypes) y name) ∧ m = h.objectKey y ∧
    (h.isBase y = true → d.HasFields y)

theorem get?_settled_union (ho : h.Orders d.structuredTypes) (hd : d.WellNamed)
    (hF : InheritedFields service d h F) (hbase : h.isBase name = true) :
    ∃ u, ((united service d h).setFields F).settleEmpty.get? name = some (.union u) ∧
      u.members.Nodup ∧ ∀ m, m ∈ u.members ↔ IsMember d h name m := by
  obtain ⟨_, hext⟩ := ho.isBase_iff.1 hbase
  have hname := (Csdl.Document.typeNames_of_extends hext).2
  have hnot : name ∉ ((united service d h).setFields F).emptyKeys := by
    intro hempty
    obtain ⟨o, hobject, _⟩ := mem_emptyKeys.1 hempty
    rw [get?_placed_union ho hd hbase] at hobject
    cases hobject
  obtain ⟨below, hmembers, _, hbelow⟩ :=
    Hierarchy.unionMembers_eq ho (fun _ _ => hd.not_isVariant_of_extends) name
  have hnodup := (ho.members_unionMembers (fun _ _ => hd.not_isVariant_of_extends) hbase).1
  let gone := ((united service d h).setFields F).emptyKeys.filter isBaseKey
  refine ⟨{ h.unionOf service name with
    members := (h.unionMembers name).filter fun m => !gone.contains m }, ?_,
    hnodup.filter _, fun m => ?_⟩
  · rw [get?_settleEmpty (settleable_placed ho hd), if_neg fun hempty => hnot hempty.1,
      get?_placed_union ho hd hbase, Option.map_some, settled, if_neg hnot]
    rfl
  · have hall : m ∈ h.unionMembers name ↔
        ∃ y, (y = name ∨ TransGen (Extends d.structuredTypes) y name) ∧ m = h.objectKey y := by
      rw [hmembers, List.mem_append, List.mem_map, List.mem_singleton]
      constructor
      · rintro (⟨y, hy, rfl⟩ | rfl)
        · exact ⟨y, .inr ((hbelow y).1 hy), rfl⟩
        · exact ⟨name, .inl rfl, by rw [Hierarchy.objectKey, if_pos hbase]⟩
      · rintro ⟨y, rfl | hy, rfl⟩
        · exact .inr (by rw [Hierarchy.objectKey, if_pos hbase])
        · exact .inl ⟨y, (hbelow y).2 hy, rfl⟩
    have hgone : ∀ y ∈ d.typeNames, h.objectKey y ∈ gone ↔
        ¬ (h.isBase y = true → d.HasFields y) := by
      intro y hy
      rw [List.mem_filter, mem_emptyKeys_placed ho hd hF hy, isBaseKey_iff, Hierarchy.objectKey]
      split
      · rename_i hbase
        simp [hbase, isBaseKey_baseKey]
      · rename_i hbase
        simp [hbase, hd.of_typeNames hy]
    simp only [List.mem_filter, hall, Bool.not_eq_true', IsMember, ← Bool.not_eq_true,
      List.contains_iff_mem]
    constructor
    · rintro ⟨⟨y, hy, rfl⟩, hstays⟩
      have hy' := Csdl.Document.typeNames_of_below hname hy
      exact ⟨y, hy, rfl, not_not.1 fun hno => hstays ((hgone y hy').2 hno)⟩
    · rintro ⟨y, hy, rfl, hstays⟩
      exact ⟨⟨y, hy, rfl⟩, fun hmem =>
        (hgone y (Csdl.Document.typeNames_of_below hname hy)).1 hmem hstays⟩

/-- Only bases stand for unions. -/
theorem isBase_of_get?_settled (ho : h.Orders d.structuredTypes) (hd : d.WellNamed)
    {u : UnionType}
    (hu : ((united service d h).setFields F).settleEmpty.get? key = some (.union u)) :
    h.isBase key = true := by
  rw [get?_settleEmpty (settleable_placed ho hd)] at hu
  split at hu
  · cases hu
  · obtain ⟨t, ht, hsettled⟩ := Option.map_eq_some_iff.1 hu
    rcases cases_get?_placed ho hd ht with ⟨e, rfl⟩ | ⟨_, _, _, rfl⟩ | ⟨hbase, _⟩
    · rw [settled] at hsettled
      split at hsettled <;> cases hsettled
    · rw [settled] at hsettled
      split at hsettled <;> cases hsettled
    · exact hbase

end Types

end ODataGraph
