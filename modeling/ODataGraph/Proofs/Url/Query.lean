import ODataGraph.Proofs.Url.Translation
import ODataGraph.Text.Cut

/-!
Where the query of a URL begins, and what its options are. What a call adds to its resource has a
question mark only before its options, so that the call stands in front of the query unless the
resource has one already.
-/

namespace ODataGraph

namespace Text

variable {c : Char}

theorem beforeFirst_append {s : String} (h : c ∉ s.toList) (t : String) :
    beforeFirst c (s ++ t) = s ++ beforeFirst c t := by
  have hall : ∀ d ∈ s.toList, (d != c) = true := by
    intro d hd
    rw [bne_iff_ne]
    rintro rfl
    exact h hd
  rw [beforeFirst, beforeFirst, String.toList_append, List.takeWhile_append_of_pos hall,
    String.ofList_append, String.ofList_toList]

theorem not_mem_beforeFirst (c : Char) (s : String) : c ∉ (beforeFirst c s).toList := by
  rw [beforeFirst, String.toList_ofList]
  intro h
  exact absurd (List.all_eq_true.1 List.all_takeWhile c h) (by simp)

theorem beforeFirst_append_of_mem {s : String} (h : c ∈ s.toList) (t : String) :
    beforeFirst c (s ++ t) = beforeFirst c s := by
  have hnot : (s.toList.takeWhile (· != c)).length ≠ s.toList.length := by
    intro hlength
    have heq := (List.takeWhile_prefix (l := s.toList) (· != c)).eq_of_length hlength
    exact not_mem_beforeFirst c s (by rwa [beforeFirst, String.toList_ofList, heq])
  rw [beforeFirst, beforeFirst, String.toList_append, List.takeWhile_append, if_neg hnot]

theorem mem_trimEndSlashes (hc : c ≠ '/') (s : String) :
    c ∈ (trimEndSlashes s).toList ↔ c ∈ s.toList := by
  obtain ⟨slashes, hs, hslashes, _⟩ := Url.exists_trimEndSlashes s
  conv_rhs => rw [hs, String.toList_append, List.mem_append]
  constructor
  · exact Or.inl
  · rintro (h | h)
    · exact h
    · exact absurd (hslashes c h) hc

end Text

namespace Url

variable {l : List (String × String)}
variable (resource key : String) (parameters : OrderedMap String Json) (call : CallStyle)
variable (select : Option (List String))

/-- The parts in front of the query. -/
def Parts.path (p : Parts) : String := "/" ++ p.segment ++ argumentsText p.arguments

theorem Parts.text_eq (p : Parts) : p.text = p.path ++ optionsText p.options := rfl

theorem query_mem_optionsText : '?' ∈ (optionsText l).toList ↔ l ≠ [] := by
  constructor
  · rintro h rfl
    cases h
  · intro h
    rw [toList_optionsText h]
    exact List.mem_cons_self

theorem beforeFirst_optionsText (l : List (String × String)) :
    Text.beforeFirst '?' (optionsText l) = "" := by
  by_cases h : l = []
  · rw [h]
    rfl
  · rw [Text.beforeFirst, toList_optionsText h]
    rfl

theorem not_mem_path_ofCall : '?' ∉ (Parts.ofCall key parameters call select).path.toList := by
  have hescaped : areEscaped ['?'] = true := by decide
  have hsegment := freeOf_systemName hescaped (by decide) key
  have harguments :
      '?' ∉ (argumentsText (Parts.ofCall key parameters call select).arguments).toList := by
    rw [Parts.ofCall]
    dsimp only
    split
    · have hseparable : Separable ['?'] ['?']
          ((given parameters false).map fun e => (Text.Percent.encode e.1, argumentText e.2)) := by
        intro a ha
        obtain ⟨e, _, rfl⟩ := List.mem_map.1 ha
        exact ⟨freeOf_encode hescaped _, freeOf_argumentText hescaped _⟩
      rw [toList_argumentsText, List.mem_cons, List.mem_append, List.mem_singleton]
      rintro (h | h | h)
      · cases h
      · exact hseparable.not_mem_joined List.mem_cons_self List.mem_cons_self (by decide)
          (by decide) h
      · cases h
    · exact List.not_mem_nil
  rw [Parts.path, String.toList_append, String.toList_append, List.mem_append, List.mem_append]
  rintro ((h | h) | h)
  · cases List.mem_singleton.1 h
  · exact hsegment '?' h List.mem_cons_self
  · exact harguments h

theorem under_eq : under resource key parameters call select =
    Text.trimEndSlashes resource ++ ((Parts.ofCall key parameters call select).path ++
      optionsText (Parts.ofCall key parameters call select).options) := by
  rw [← Parts.text_eq, text_ofCall, under, String.append_assoc]

/-- A URL has a query if its resource has one, or if there are options. -/
theorem query_mem_under : '?' ∈ (under resource key parameters call select).toList ↔
    '?' ∈ resource.toList ∨ given parameters true ≠ [] ∨ select.isSome = true := by
  have hoptions : (Parts.ofCall key parameters call select).options ≠ [] ↔
      given parameters true ≠ [] ∨ select.isSome = true := by
    rw [Parts.ofCall]
    cases select <;> simp
  rw [under_eq, String.toList_append, String.toList_append, List.mem_append, List.mem_append,
    Text.mem_trimEndSlashes (by decide), query_mem_optionsText, hoptions,
    or_iff_right (not_mem_path_ofCall key parameters call select)]

/-- Behind a query everything belongs to it. -/
theorem beforeFirst_under_of_mem (h : '?' ∈ resource.toList) :
    Text.beforeFirst '?' (under resource key parameters call select) =
      Text.beforeFirst '?' resource := by
  obtain ⟨slashes, hresource, _, _⟩ := exists_trimEndSlashes resource
  have htrimmed := (Text.mem_trimEndSlashes (by decide) resource).2 h
  rw [under_eq, Text.beforeFirst_append_of_mem htrimmed]
  conv_rhs => rw [hresource, Text.beforeFirst_append_of_mem htrimmed]

/-- The call stands right before the query if the resource has no query of its own. -/
theorem beforeFirst_under_iff : Text.beforeFirst '?' (under resource key parameters call select) =
      Text.trimEndSlashes resource ++ (Parts.ofCall key parameters call select).path ↔
    '?' ∉ resource.toList := by
  constructor
  · intro h hmem
    have hnot := Text.not_mem_beforeFirst '?' (under resource key parameters call select)
    rw [h, String.toList_append, List.mem_append] at hnot
    exact hnot (.inl ((Text.mem_trimEndSlashes (by decide) resource).2 hmem))
  · intro h
    have hcall : '?' ∉ (Text.trimEndSlashes resource ++
        (Parts.ofCall key parameters call select).path).toList := by
      rw [String.toList_append, List.mem_append, Text.mem_trimEndSlashes (by decide)]
      exact not_or_intro h (not_mem_path_ofCall key parameters call select)
    rw [under_eq, ← String.append_assoc, Text.beforeFirst_append hcall, beforeFirst_optionsText,
      String.append_empty]

/-- A URL under a resource has an option in its query. -/
def HasOption (resource url : String) (option : String × String) : Prop :=
  ∃ p : Parts, p.Delimited ∧ url = Text.trimEndSlashes resource ++ p.text ∧ option ∈ p.options

theorem hasOption_under_iff {option : String × String} :
    HasOption resource (under resource key parameters call select) option ↔
      option ∈ (Parts.ofCall key parameters call select).options := by
  have htext : under resource key parameters call select =
      Text.trimEndSlashes resource ++ (Parts.ofCall key parameters call select).text := by
    rw [text_ofCall, under, String.append_assoc]
  have hdelimited := delimited_ofCall key parameters call select
  constructor
  · rintro ⟨p, hp, hunder, hoption⟩
    rw [htext, String.append_right_inj] at hunder
    rwa [Parts.text_inj hp hdelimited hunder.symm] at hoption
  · intro hoption
    exact ⟨_, hdelimited, htext, hoption⟩

/-- If no parameter stands for it, the option that selects properties is read as what was selected. -/
theorem exists_selected_of_hasOption (hparameters : "_select" ∉ parameters.keys) {value : String}
    (h : HasOption resource (under resource key parameters call select) ("$select", value)) :
    ∃ listed, select = some listed ∧
      readSelection? ("$select", value) = some (selected listed) := by
  rw [hasOption_under_iff, Parts.ofCall] at h
  dsimp only at h
  rcases List.mem_append.1 h with h | h
  · obtain ⟨⟨name, v⟩, hgiven, heq⟩ := List.mem_map.1 h
    have hname : systemName name = "$select" := congrArg Prod.fst heq
    have hread := readName?_systemName name
    have hselect : readName? "$select" = some "_select" := by decide
    rw [hname, hselect] at hread
    obtain rfl := Option.some.inj hread
    have hentry := List.mem_of_mem_filter hgiven
    exact absurd (List.mem_map_of_mem (f := Prod.fst) hentry) hparameters
  · obtain ⟨listed, hlisted, heq⟩ := List.mem_map.1 h
    rw [← heq]
    exact ⟨listed, Option.mem_toList.1 hlisted, readSelection?_select listed⟩

end Url

end ODataGraph
