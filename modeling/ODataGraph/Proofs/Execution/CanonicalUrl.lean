import ODataGraph.Proofs.Execution.Coverage
import ODataGraph.Proofs.Url.Query

/-!
The canonical URLs of objects. They are the base URL, the set and the id, one after the other as
they are, and not spelled as the names and values of calls are. So they lead to the object in its
set only where a call would spell both in the same way.
-/

namespace ODataGraph

namespace Url

variable {baseUrl set id : String}

/-- Names that calls spell as they are. -/
theorem systemName_eq_self_iff {name : String} : systemName name = name ↔
    name.toList.head? ≠ some '_' ∧ ∀ c ∈ name.toList, Text.Percent.isKept c = true := by
  rw [systemName]
  split
  · rename_i rest hname
    rw [hname, List.head?_cons]
    refine ⟨fun h => ?_, fun h => absurd rfl h.1⟩
    have hdollar := congrArg String.toList h
    rw [hname, String.toList_append] at hdollar
    cases hdollar
  · rename_i hname
    rw [Text.Percent.encode_eq_self_iff]
    refine ⟨fun h => ⟨fun hhead => ?_, h⟩, And.right⟩
    obtain ⟨rest, hrest⟩ := List.head?_eq_some_iff.1 hhead
    exact hname rest hrest

/-- A URL leads to the object with an id in a set: it has the set's name as calls spell it, and
below that one segment that stands for the id. -/
def Addresses (baseUrl set id url : String) : Prop :=
  ∃ segment, url = Text.trimEndSlashes baseUrl ++ "/" ++ systemName set ++ "/" ++ segment ∧
    FreeOf ['/', '?', '#'] segment ∧ Text.Percent.decode? segment = some id

/-- The set and the id as they are. -/
def plain (baseUrl set id : String) : String :=
  Text.trimEndSlashes baseUrl ++ "/" ++ set ++ "/" ++ id

theorem plain_inj {id' : String} : plain baseUrl set id = plain baseUrl set id' ↔ id = id' :=
  String.append_right_inj _

/-- Only one slash stands between a set and an id that have none, so that it tells them apart. -/
theorem eq_of_slash_between {set' segment : String} (hset : FreeOf ['/'] set)
    (hsegment : FreeOf ['/'] segment) (h : set ++ "/" ++ segment = set' ++ "/" ++ id) :
    set = set' ∧ segment = id := by
  have hchars : set.toList ++ '/' :: segment.toList = set'.toList ++ '/' :: id.toList := by
    have htexts := congrArg String.toList h
    simpa [String.toList_append] using htexts
  have hnone : ∀ {s : String}, FreeOf ['/'] s → s.toList.count '/' = 0 := by
    intro s hs
    exact List.count_eq_zero.2 fun hmem => hs '/' hmem List.mem_cons_self
  have hcount := congrArg (List.count '/') hchars
  rw [List.count_append, List.count_append, List.count_cons_self, List.count_cons_self, hnone hset,
    hnone hsegment] at hcount
  have hset' : FreeOf ['/'] set' := by
    intro c hc hmem
    rw [List.mem_singleton.1 hmem] at hc
    have hpos := List.count_pos_iff.2 hc
    omega
  have hbegins : ∀ rest, BeginsIn ['/'] ('/' :: rest) := fun _ => beginsIn_cons List.mem_cons_self
  obtain ⟨hname, hrest⟩ := eq_of_append_eq hset hset' (hbegins _) (hbegins _) hchars
  exact ⟨String.toList_inj.1 hname, String.toList_inj.1 (List.cons.inj hrest).2⟩

/-- As they are, a set and an id lead to the object if nothing in them is spelled differently. -/
theorem addresses_plain_iff : Addresses baseUrl set id (plain baseUrl set id) ↔
    systemName set = set ∧ FreeOf ['/', '?', '#', '%'] id := by
  constructor
  · rintro ⟨segment, hurl, hfree, hdecode⟩
    have hescaped : areEscaped ['/'] = true := by decide
    have hset := freeOf_systemName hescaped (by decide) set
    have hsegment : FreeOf ['/'] segment := by
      intro c hc hmem
      rw [List.mem_singleton.1 hmem] at hc
      exact hfree '/' hc List.mem_cons_self
    have hrest : systemName set ++ "/" ++ segment = set ++ "/" ++ id := by
      simp only [plain, String.append_assoc, String.append_right_inj] at hurl
      simpa only [String.append_assoc] using hurl.symm
    obtain ⟨hname, rfl⟩ := eq_of_slash_between hset hsegment hrest
    refine ⟨hname, fun c hc hmem => ?_⟩
    have hpercent := Text.Percent.decode?_eq_self_iff.1 hdecode
    have hsigns : c ∈ ['/', '?', '#'] ∨ c = '%' := by simpa [or_assoc] using hmem
    rcases hsigns with hsign | rfl
    · exact hfree c hc hsign
    · exact hpercent hc
  · rintro ⟨hname, hfree⟩
    refine ⟨id, by rw [hname, plain], fun c hc hmem => hfree c hc ?_, ?_⟩
    · exact List.mem_append_left ['%'] hmem
    · exact Text.Percent.decode?_eq_self_iff.2 fun hmem => hfree '%' hmem (by decide)

end Url

namespace Entity

variable {r : Registry} {declared : String} {data : Json.Members} {origin : Option String}
  {e : Entity}

theorem Names.unique {key key' : String} (h : Names r declared data key)
    (h' : Names r declared data key') : key = key' := by
  cases h with
  | declared hnone =>
    cases h' with
    | declared => rfl
    | named hodata ht => cases (hnone _ hodata).symm.trans ht
  | named hodata ht =>
    cases h' with
    | declared hnone => cases (hnone _ hodata).symm.trans ht
    | named hodata' =>
      cases hodata.symm.trans hodata'
      rfl

/-- The type of an object has its entities in a set, and the object has an id, which is a string or
a number. -/
structure InSet (r : Registry) (declared : String) (data : Json.Members) (set id : String) :
    Prop where
  set : ∃ key type, Names r declared data key ∧ r.get? key = some type ∧
    r.entitySets.get? type.name = some set
  id : (data.get? "id").bind idText = some id

theorem canonicalUrl_eq_some_iff (h : materialize r declared data origin = .ok e) {url : String} :
    e.canonicalUrl = some url ↔
      ∃ set id, InSet r declared data set id ∧ url = Url.plain r.service.baseUrl set id := by
  rw [materialize] at h
  obtain ⟨key, hkey, h⟩ := bind_eq_ok_iff.1 h
  split at h
  · rename_i type typeKey o htype _
    cases h
    have hnames := names_of_typeOf hkey
    simp only [canonicalUrlOf, Option.bind_eq_bind, Option.bind_eq_some_iff, Option.pure_def,
      Option.some.injEq]
    constructor
    · rintro ⟨set, hset, id, hid, rfl⟩
      exact ⟨set, id, ⟨⟨key, type, hnames, htype, hset⟩, Option.bind_eq_some_iff.2 hid⟩, rfl⟩
    · rintro ⟨set, id, ⟨⟨key', type', hnames', htype', hset⟩, hid⟩, rfl⟩
      obtain rfl := hnames.unique hnames'
      cases htype.symm.trans htype'
      exact ⟨set, hset, id, Option.bind_eq_some_iff.1 hid, rfl⟩
  · cases h

/-- The canonical URL of an object leads to it exactly if the name of its set and its id hold
nothing that calls spell differently. Whatever they hold, the objects of one set have URLs that
differ as their ids do. -/
theorem addresses_canonicalUrl_iff (h : materialize r declared data origin = .ok e) :
    (∀ url, e.canonicalUrl = some url ↔
      ∃ set id, InSet r declared data set id ∧ url = Url.plain r.service.baseUrl set id) ∧
    (∀ set id, InSet r declared data set id →
      ((∃ url, e.canonicalUrl = some url ∧ Url.Addresses r.service.baseUrl set id url) ↔
        (set.toList.head? ≠ some '_' ∧ ∀ c ∈ set.toList, Text.Percent.isKept c = true) ∧
          Url.FreeOf ['/', '?', '#', '%'] id)) ∧
    ∀ declared' data' origin' e', materialize r declared' data' origin' = .ok e' →
      ∀ set id id', InSet r declared data set id → InSet r declared' data' set id' →
        (e.canonicalUrl = e'.canonicalUrl ↔ id = id') := by
  have hurl : ∀ {declared data origin e} (_ : materialize r declared data origin = .ok e)
      {set id : String}, InSet r declared data set id →
        e.canonicalUrl = some (Url.plain r.service.baseUrl set id) :=
    fun h _ _ hset => (canonicalUrl_eq_some_iff h).2 ⟨_, _, hset, rfl⟩
  refine ⟨fun url => canonicalUrl_eq_some_iff h, fun set id hset => ?_, ?_⟩
  · have hplain : Url.Addresses r.service.baseUrl set id (Url.plain r.service.baseUrl set id) ↔ _ :=
      Url.addresses_plain_iff
    rw [hurl h hset, ← Url.systemName_eq_self_iff, ← hplain]
    simp only [Option.some.injEq, exists_eq_left']
  · intro declared' data' origin' e' h' set id id' hset hset'
    rw [hurl h hset, hurl h' hset', Option.some.injEq, Url.plain_inj]

end Entity

/-! Pets in a set of theirs, among them one whose id has a slash. -/

namespace Pets

def document : Csdl.Document where
  structuredTypes := [{
    name := "Pet"
    members := [{ name := "Friend", type := "Zoo.Pet", kind := .navigation }] }]
  container := [{ kind := .entitySet, name := "Pets", type := "Zoo.Pet" }]

def registry : Registry :=
  match Registry.build Kennel.service document with
  | .ok r => r
  | .error _ => {
      service := Kennel.service, types := ∅, entitySets := ∅
      queryRoot := .queryRoot Kennel.service ∅, mutationRoot := .mutationRoot Kennel.service }

theorem build_document : Registry.build Kennel.service document = .ok registry := by rfl

def pet (id : String) : Entity where
  typeKey := "Pet"
  typeName := "zoo_Pet"
  baseUrl := "http://zoo.test/odata"
  canonicalUrl := some ("http://zoo.test/odata/Pets/" ++ id)
  originUrl := none
  data := [("id", .string id)]

theorem start_pets :
    Text.trimEndSlashes registry.service.baseUrl ++ "/" ++ "Pets" ++ "/" =
      "http://zoo.test/odata/Pets/" := by
  decide

theorem materialize_pet (id : String) :
    Entity.materialize registry "Pet" [("id", .string id)] none = .ok (pet id) := by
  rw [pet, ← start_pets]
  rfl

theorem inSet_pet (id : String) : Entity.InSet registry "Pet" [("id", .string id)] "Pets" id where
  set := ⟨"Pet", _, .declared nofun, rfl, rfl⟩
  id := rfl

end Pets

/-- A pet with a plain id is where its canonical URL leads, which no other pet has. -/
theorem addresses_of_pets :
    Entity.materialize Pets.registry "Pet" [("id", .string "7")] none = .ok (Pets.pet "7") ∧
    Entity.InSet Pets.registry "Pet" [("id", .string "7")] "Pets" "7" ∧
    (∃ url, (Pets.pet "7").canonicalUrl = some url ∧
      Url.Addresses Pets.registry.service.baseUrl "Pets" "7" url) ∧
    Entity.materialize Pets.registry "Pet" [("id", .string "1/Friend")] none =
      .ok (Pets.pet "1/Friend") ∧
    (Pets.pet "7").canonicalUrl ≠ (Pets.pet "1/Friend").canonicalUrl := by
  have hmaterialize := Pets.materialize_pet "7"
  have hset := Pets.inSet_pet "7"
  have hfriend := Pets.materialize_pet "1/Friend"
  obtain ⟨_, haddresses, hdiffers⟩ := Entity.addresses_canonicalUrl_iff hmaterialize
  refine ⟨hmaterialize, hset, (haddresses _ _ hset).2 ⟨⟨?_, ?_⟩, ?_⟩, hfriend, fun h => ?_⟩
  · decide
  · exact List.all_eq_true.1 (by decide)
  · decide
  · have hids := (hdiffers _ _ _ _ hfriend _ _ _ hset (Pets.inSet_pet _)).1 h
    exact absurd hids (by decide)

/-- An object whose id has a slash is not where its canonical URL leads. -/
theorem not_forall_canonicalUrl_addresses : ¬ ∀ (service : Service) (d : Csdl.Document)
    (r : Registry) (declared : String) (data : Json.Members) (origin : Option String) (e : Entity)
    (set id url : String), Registry.build service d = .ok r →
    Url.FreeOf ['?', '#'] r.service.baseUrl → Entity.materialize r declared data origin = .ok e →
    Entity.InSet r declared data set id → e.canonicalUrl = some url →
    Url.Addresses r.service.baseUrl set id url := by
  intro h
  have hbase : Url.FreeOf ['?', '#'] Pets.registry.service.baseUrl := by decide
  have haddresses := h Kennel.service Pets.document Pets.registry "Pet" _ none _ "Pets" "1/Friend" _
    Pets.build_document hbase (Pets.materialize_pet "1/Friend") (Pets.inSet_pet _) rfl
  have hplain : "http://zoo.test/odata/Pets/" ++ "1/Friend" =
      Url.plain Pets.registry.service.baseUrl "Pets" "1/Friend" := by
    rw [Url.plain, Pets.start_pets]
  rw [hplain, Url.addresses_plain_iff] at haddresses
  exact haddresses.2 '/' (by decide) (by decide)

end ODataGraph
