import ODataGraph.Proofs.Csdl.Schema
import ODataGraph.Proofs.Registry.BaseOrder
import ODataGraph.Registry.Build

/-!
Which documents are refused. Types go by their names without namespaces, so that types of several
schemas can make a cycle together that none of them is in.
-/

namespace ODataGraph

open Csdl (StructuredType Declaration declarations)

namespace Csdl

/-- From a type to its base, both by their qualified names. -/
def Follows (cs : List Declaration) (name base : String) : Prop :=
  ∃ c ∈ cs, c.qualifiedName = name ∧ c.base = some base ∧
    base ∈ cs.map Declaration.qualifiedName

/-- From a name to the name of a base, both without their namespaces. Of several types with the name
the last one counts whose base has the name of a type. -/
def FollowsLocally (cs : List Declaration) (name base : String) : Prop :=
  ∃ before c after, cs = before ++ c :: after ∧ c.name = name ∧ c.localBase = some base ∧
    base ∈ cs.map Declaration.name ∧
    ∀ c' ∈ after, c'.name = name → ∀ b, c'.localBase = some b → b ∉ cs.map Declaration.name

/-- The qualified names in a document: those of its types and those that their bases are written
with. -/
def qualifiedNames (cs : List Declaration) : List String :=
  cs.map Declaration.qualifiedName ++ cs.filterMap Declaration.base

theorem Declaration.localName_qualifiedName {c : Declaration} (h : '.' ∉ c.name.toList) :
    localName c.qualifiedName = c.name := by
  rw [qualifiedName]
  split
  · exact Text.afterLast_append h _
  · exact Text.afterLast_eq_self h

theorem not_mem_localBase {c : Declaration} {base : String} (h : c.localBase = some base) :
    '.' ∉ base.toList := by
  obtain ⟨_, _, rfl⟩ := Option.map_eq_some_iff.1 h
  exact Text.not_mem_afterLast _ _

/-- Where no two qualified names have one local name, local names lead from type to type just as
qualified ones do. -/
theorem exists_neverEnds_follows {cs : List Declaration} {name : String}
    (hinj : ∀ a ∈ qualifiedNames cs, ∀ b ∈ qualifiedNames cs, localName a = localName b → a = b)
    (h : NeverEnds (FollowsLocally cs) name) : ∃ q, NeverEnds (Follows cs) q := by
  obtain ⟨f, _, hf⟩ := h
  have hstep : ∀ n, ∃ c ∈ cs, c.name = f n ∧ c.localBase = some (f (n + 1)) := by
    intro n
    obtain ⟨before, c, after, rfl, hname, hbase, _⟩ := hf n
    exact ⟨c, List.mem_append_right _ List.mem_cons_self, hname, hbase⟩
  choose c hmem hname hbase using hstep
  refine ⟨(c 0).qualifiedName, fun n => (c n).qualifiedName, rfl, fun n => ?_⟩
  obtain ⟨base, hwritten, hlocal⟩ := Option.map_eq_some_iff.1 (hbase n)
  have hwritten := (Option.filter_eq_some_iff.1 hwritten).1
  have hnext : localName (c (n + 1)).qualifiedName = localName base := by
    rw [Declaration.localName_qualifiedName (hname (n + 1) ▸ not_mem_localBase (hbase n)), hlocal,
      hname]
  have hqualified := List.mem_map_of_mem (f := Declaration.qualifiedName) (hmem (n + 1))
  have heq : base = (c (n + 1)).qualifiedName :=
    hinj _ (List.mem_append_right _ (List.mem_filterMap.2 ⟨c n, hmem n, hwritten⟩))
      _ (List.mem_append_left _ hqualified) hnext.symm
  exact ⟨c n, hmem n, rfl, hwritten.trans (congrArg some heq), hqualified⟩

end Csdl

namespace Hierarchy

variable {types : List StructuredType} {cs : List Declaration} {names : List String}

theorem bases_eq (h : types.map StructuredType.written = cs.map Declaration.written) :
    bases types = .ofList (cs.filterMap fun c =>
      (c.localBase.filter (cs.map Declaration.name).contains).map (c.name, ·)) := by
  have hnames : types.map (·.name) = cs.map Declaration.name := by
    have hfirst := congrArg (List.map Prod.fst) h
    rw [List.map_map, List.map_map] at hfirst
    exact hfirst
  let pair? (w : String × Option String) : Option (String × String) :=
    (((w.2.filter (!·.isEmpty)).map Csdl.localName).filter
      (cs.map Declaration.name).contains).map (w.1, ·)
  have hentries : types.filterMap (pair? ∘ StructuredType.written) =
      cs.filterMap (pair? ∘ Declaration.written) := by
    rw [← List.filterMap_map, h, List.filterMap_map]
  rw [bases, hnames]
  exact congrArg OrderedMap.ofList hentries

theorem followsLocally_of_mem_bases
    (h : types.map StructuredType.written = cs.map Declaration.written) {name base : String}
    (hmem : (name, base) ∈ (bases types).entries) : Csdl.FollowsLocally cs name base := by
  rw [bases_eq h, OrderedMap.mem_entries_iff, OrderedMap.get?_ofList,
    List.lookup_eq_some_iff] at hmem
  -- of the entries with one key the look-up finds the last, the first from the end
  obtain ⟨later, earlier, hreverse, hlater⟩ := hmem
  have hentries := congrArg List.reverse hreverse
  rw [List.reverse_reverse, List.reverse_append, List.reverse_cons, List.append_assoc,
    List.singleton_append] at hentries
  obtain ⟨start, rest, hcs, _, hrest⟩ := List.filterMap_eq_append_iff.1 hentries
  obtain ⟨skipped, c, after, hsplit, _, hc, hafter⟩ := List.filterMap_eq_cons_iff.1 hrest
  obtain ⟨_, hbase, hpair⟩ := Option.map_eq_some_iff.1 hc
  cases hpair
  obtain ⟨hlocal, hdeclared⟩ := Option.filter_eq_some_iff.1 hbase
  refine ⟨start ++ skipped, c, after, by rw [hcs, hsplit, List.append_assoc], rfl, hlocal,
    List.contains_iff_mem.1 hdeclared, fun c' hc' hname b hb hmem => ?_⟩
  have hentry : (c.name, b) ∈ later.reverse := by
    rw [← hafter, List.mem_filterMap]
    refine ⟨c', hc', ?_⟩
    rw [hb, Option.filter_some, if_pos (List.contains_iff_mem.2 hmem), hname]
    rfl
  exact bne_iff_ne.1 (hlater _ (List.mem_reverse.1 hentry)) rfl

end Hierarchy

namespace Registry

variable {service : Service} {d : Csdl.Document} {augmentation : Option Augmentation}
  {error : SchemaError} {text : String} {root : Xml.Node}

theorem ofTypes_eq_error_of_build (hr : build service d augmentation = .error error) :
    ∃ names, Hierarchy.order (Hierarchy.bases d.structuredTypes).size
        (Hierarchy.bases d.structuredTypes) = .error names ∧
      error = .inheritanceCycle (Hierarchy.sorted names) := by
  rw [build, plain, Hierarchy.ofTypes] at hr
  cases horder : Hierarchy.order (Hierarchy.bases d.structuredTypes).size
      (Hierarchy.bases d.structuredTypes) with
  | ok edges =>
    rw [horder] at hr
    cases hr
  | error names =>
    rw [horder] at hr
    cases hr
    exact ⟨names, rfl, rfl⟩

/-- A document is refused only for names that never lead to an end, namespaces left aside. Where no
two qualified names have one local name, it has types that never lead to an end. -/
theorem neverEnds_of_build (hroot : Xml.parse? text = some root)
    (hd : Csdl.Document.parse text = .ok d) (hr : build service d augmentation = .error error) :
    ∃ names, error = .inheritanceCycle names ∧ names ≠ [] ∧
      (∀ name ∈ names, NeverEnds (Csdl.FollowsLocally (declarations none root)) name) ∧
      ((∀ a ∈ Csdl.qualifiedNames (declarations none root),
        ∀ b ∈ Csdl.qualifiedNames (declarations none root),
          Csdl.localName a = Csdl.localName b → a = b) →
        ∃ name, NeverEnds (Csdl.Follows (declarations none root)) name) := by
  rw [Csdl.Document.parse, hroot] at hd
  have hwritten := Csdl.Document.written_of_ofNode hd none
  obtain ⟨names, horder, rfl⟩ := ofTypes_eq_error_of_build hr
  obtain ⟨hne, hnext⟩ := Hierarchy.of_order_eq_error le_rfl horder
  have hmem : ∀ name, name ∈ Hierarchy.sorted names ↔ name ∈ names := fun _ => List.mem_mergeSort
  have hends : ∀ name ∈ names, NeverEnds (Csdl.FollowsLocally (declarations none root)) name := by
    refine fun name hname => neverEnds_of_forall_exists (fun a ha => ?_) hname
    obtain ⟨base, hbase, hpair⟩ := hnext a ha
    exact ⟨base, hbase, Hierarchy.followsLocally_of_mem_bases hwritten hpair⟩
  obtain ⟨name, hname⟩ := List.exists_mem_of_ne_nil names hne
  refine ⟨Hierarchy.sorted names, rfl, ?_, fun name hname => hends name ((hmem name).1 hname),
    fun hinj => Csdl.exists_neverEnds_follows hinj (hends name hname)⟩
  exact List.ne_nil_of_mem ((hmem name).2 hname)

/-- The error that a document is refused with. -/
def refusal? (service : Service) (root : Xml.Node) : Option SchemaError :=
  match Csdl.Document.ofNode root with
  | .error _ => none
  | .ok d =>
    match build service d with
    | .error error => some error
    | .ok _ => none

theorem exists_of_refusal? (hroot : Xml.parse? text = some root)
    (h : refusal? service root = some error) :
    ∃ d, Csdl.Document.parse text = .ok d ∧ build service d = .error error := by
  rw [Csdl.Document.parse, hroot]
  rw [refusal?] at h
  split at h
  · cases h
  · rename_i d hd
    split at h
    · rename_i hr
      cases h
      exact ⟨d, hd, hr⟩
    · cases h

/-- Two types that extend each other. -/
def loopText : String :=
  "<Schema Namespace=\"Loop\"><EntityType Name=\"A\" BaseType=\"Loop.B\"/>" ++
    "<EntityType Name=\"B\" BaseType=\"Loop.A\"/></Schema>"

theorem neverEnds_of_loop : ∃ root, Xml.parse? loopText = some root ∧
    ∃ name, NeverEnds (Csdl.Follows (declarations none root)) name := by
  have hparse : (Xml.parse? loopText).map (fun root => (declarations none root,
      (refusal? ⟨"zoo", "http://zoo.test/odata"⟩ root).isSome)) =
      some ([⟨some "Loop", "A", some "Loop.B"⟩, ⟨some "Loop", "B", some "Loop.A"⟩], true) := by
    decide +kernel
  obtain ⟨root, hroot, heq⟩ := Option.map_eq_some_iff.1 hparse
  obtain ⟨hdeclared, hrefusal⟩ := Prod.mk.inj heq
  obtain ⟨error, hrefusal⟩ := Option.isSome_iff_exists.1 hrefusal
  obtain ⟨d, hd, hr⟩ := exists_of_refusal? hroot hrefusal
  obtain ⟨_, _, _, _, hends⟩ := neverEnds_of_build hroot hd hr
  refine ⟨root, hroot, hends ?_⟩
  rw [hdeclared]
  decide

/-- A type that extends one of the same name in another schema. -/
def cousinsText : String :=
  "<Edmx><Schema Namespace=\"X\"><EntityType Name=\"A\" BaseType=\"Y.A\"/></Schema>" ++
    "<Schema Namespace=\"Y\"><EntityType Name=\"A\"/></Schema></Edmx>"

/-- Qualified names can come to an end where names without namespaces do not. -/
theorem not_forall_neverEnds_follows : ¬ ∀ text root d service names,
    Xml.parse? text = some root → Csdl.Document.parse text = .ok d →
    (∀ c ∈ declarations none root, ∀ base, c.base = some base →
      base ∈ (declarations none root).map Declaration.qualifiedName) →
    build service d = .error (.inheritanceCycle names) →
    ∃ name, NeverEnds (Csdl.Follows (declarations none root)) name := by
  intro hall
  have hparse : (Xml.parse? cousinsText).map (fun root => (declarations none root,
      refusal? ⟨"zoo", "http://zoo.test/odata"⟩ root)) =
      some ([⟨some "X", "A", some "Y.A"⟩, ⟨some "Y", "A", none⟩],
        some (.inheritanceCycle ["A"])) := by
    decide +kernel
  obtain ⟨root, hroot, heq⟩ := Option.map_eq_some_iff.1 hparse
  obtain ⟨hdeclared, hrefusal⟩ := Prod.mk.inj heq
  obtain ⟨d, hd, hr⟩ := exists_of_refusal? hroot hrefusal
  have hqualified : (declarations none root).map Declaration.qualifiedName = ["X.A", "Y.A"] := by
    rw [hdeclared]
    decide
  have hfollows : ∀ name base, Csdl.Follows (declarations none root) name base →
      name = "X.A" ∧ base = "Y.A" := by
    rintro _ base ⟨c, hc, rfl, hbase, _⟩
    rw [hdeclared] at hc
    simp only [List.mem_cons, List.not_mem_nil, or_false] at hc
    rcases hc with rfl | rfl
    · cases hbase
      exact ⟨by decide, rfl⟩
    · cases hbase
  have hknown : ∀ c ∈ declarations none root, ∀ base, c.base = some base →
      base ∈ (declarations none root).map Declaration.qualifiedName := by
    intro c hc base hbase
    rw [hqualified]
    rw [hdeclared] at hc
    simp only [List.mem_cons, List.not_mem_nil, or_false] at hc
    rcases hc with rfl | rfl
    · cases hbase
      exact List.mem_cons_of_mem _ List.mem_cons_self
    · cases hbase
  obtain ⟨_, f, _, hf⟩ := hall _ _ _ _ _ hroot hd hknown hr
  have hsame := (hfollows _ _ (hf 0)).2.symm.trans (hfollows _ _ (hf 1)).1
  exact absurd hsame (by decide)

end Registry

end ODataGraph
