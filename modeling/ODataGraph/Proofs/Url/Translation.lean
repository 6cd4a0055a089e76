import ODataGraph.Proofs.Decimal.Numeral
import ODataGraph.Proofs.Sequence
import ODataGraph.Proofs.Text.Percent
import ODataGraph.Proofs.Url.Parts
import ODataGraph.Url.Resource

/-!
URLs can be read back: what is requested under a resource has unique parts, and these give back the
key, the parameters and the selection that the URL was made from.
-/

namespace ODataGraph.Url

open Text (Percent.decode? Percent.encode)

/-- What a value is passed as: a string, or the JSON text of anything else. -/
inductive Passed where
  | string (s : String)
  | json (text : String)
  deriving DecidableEq

def Passed.ofJson : Json → Passed
  | .string s => .string s
  | value => .json value.print

def Passed.text : Passed → String
  | .string s => s
  | .json text => text

/-- The parameters that are not null, those with a leading underscore or the others. -/
def given (parameters : OrderedMap String Json) (system : Bool) : List (String × Json) :=
  parameters.entries.filter fun e => !e.2.isNull && isSystem e.1 == system

/-- The name that a part stands for; a dollar sign in front stands for an underscore. -/
def readName? (part : String) : Option String :=
  match part.toList with
  | '$' :: rest => (Percent.decode? (String.ofList rest)).map ("_" ++ ·)
  | _ => Percent.decode? part

def undoubleQuotes : List Char → Option (List Char)
  | [] => some []
  | '\x27' :: '\x27' :: rest => (undoubleQuotes rest).map ('\x27' :: ·)
  | c :: rest => if c = '\x27' then none else (undoubleQuotes rest).map (c :: ·)

/-- A string stands between quotes, with its own quotes doubled. -/
def readLiteral? (literal : String) : Option Passed := do
  let text ← Percent.decode? literal
  match text.toList with
  | '\x27' :: rest =>
    if rest.getLast? = some '\x27' then
      (undoubleQuotes rest.dropLast).map fun s => .string (String.ofList s)
    else none
  | _ => return .json text

def readArgument? (a : String × String) : Option (String × Passed) := do
  return (← Percent.decode? a.1, ← readLiteral? a.2)

def readOption? (o : String × String) : Option (String × String) := do
  return (← Percent.decode? o.1, ← Percent.decode? o.2)

/-- The properties of a selection, with commas between them. -/
def readSelection? (o : String × String) : Option (List String) :=
  if o.1 = "$select" then
    (o.2.toList.splitOn ',').mapM fun property => Percent.decode? (String.ofList property)
  else none

/-- The parts give back what a URL was made from. -/
structure Parts.Restores (p : Parts) (key : String) (parameters : OrderedMap String Json)
    (select : Option (List String)) : Prop where
  key : readName? p.segment = some key
  arguments : (p.arguments.getD []).mapM readArgument? =
    some ((given parameters false).map fun e => (e.1, .ofJson e.2))
  options : ∃ options selection, p.options = options ++ selection ∧
    options.mapM readOption? = some ((given parameters true).map fun e =>
      ("$" ++ String.ofList e.1.toList.tail, (Passed.ofJson e.2).text)) ∧
    selection.mapM readSelection? = some (select.toList.map fun l => (l ++ ["id"]).eraseDups)

/-- The parts of what a call adds to its resource. -/
def Parts.ofCall (key : String) (parameters : OrderedMap String Json) (call : CallStyle)
    (select : Option (List String)) : Parts where
  segment := systemName key
  arguments :=
    if call = .function ∨ given parameters false ≠ [] then
      some ((given parameters false).map fun e => (Percent.encode e.1, argumentText e.2))
    else none
  options :=
    (given parameters true).map (fun e => (systemName e.1, Percent.encode (optionText e.2))) ++
      select.toList.map fun l =>
        ("$select", String.intercalate "," ((selected l).map Percent.encode))

/-- The parts of a call make up what it adds to its resource. -/
theorem text_ofCall (key : String) (parameters : OrderedMap String Json) (call : CallStyle)
    (select : Option (List String)) :
    (Parts.ofCall key parameters call select).text = "/" ++ segment key parameters call select := by
  have hfilter : ∀ system, (parameters.entries.filter fun p => !p.2.isNull).filter
      (fun p => isSystem p.1 == system) = given parameters system := by
    intro system
    rw [given, List.filter_filter]
    exact List.filter_congr fun _ _ => Bool.and_comm _ _
  have hnamed : (parameters.entries.filter fun p => !p.2.isNull).filter (fun p => !isSystem p.1) =
      given parameters false := by simpa using hfilter false
  have hsystem : (parameters.entries.filter fun p => !p.2.isNull).filter (fun p => isSystem p.1) =
      given parameters true := by simpa using hfilter true
  have harguments : argumentsText (Parts.ofCall key parameters call select).arguments =
      if call = .function ∨ !((given parameters false).map fun p => argument p.1 p.2).isEmpty then
        "(" ++ String.intercalate "," ((given parameters false).map fun p => argument p.1 p.2) ++ ")"
      else "" := by
    have hparentheses : (call = .function ∨ given parameters false ≠ []) ↔ (call = .function ∨
        (!((given parameters false).map fun p => argument p.1 p.2).isEmpty) = true) := by simp
    rw [Parts.ofCall]
    dsimp only
    by_cases h : call = .function ∨ given parameters false ≠ []
    · rw [if_pos h, if_pos (hparentheses.1 h), argumentsText, List.map_map]
      rfl
    · rw [if_neg h, if_neg (fun h' => h (hparentheses.2 h'))]
      rfl
  have hoptions : (Parts.ofCall key parameters call select).options.map assigned =
      (given parameters true).map (fun p => queryOption p.1 p.2) ++
        select.toList.map selectOption := by
    rw [Parts.ofCall, List.map_append, List.map_map, List.map_map]
    rfl
  have hempty : (Parts.ofCall key parameters call select).options.isEmpty =
      ((given parameters true).map (fun p => queryOption p.1 p.2) ++
        select.toList.map selectOption).isEmpty := by
    rw [← hoptions, List.isEmpty_map]
  rw [Parts.text, harguments, optionsText, hoptions, hempty, segment]
  simp only [hnamed, hsystem, String.append_assoc]
  rfl

/-- No encoded text has any of the characters. -/
def areEscaped (cs : List Char) : Bool := cs.all fun c => c != '%' && !Text.Percent.isKept c

/-- Characters that end parts occur in no encoded text. -/
theorem freeOf_encode {cs : List Char} (h : areEscaped cs = true) (s : String) :
    FreeOf cs (Percent.encode s) := by
  intro c hc hmem
  have hescaped := List.all_eq_true.1 h c hmem
  rw [Bool.and_eq_true, bne_iff_ne, Bool.not_eq_true'] at hescaped
  exact Text.Percent.not_mem_encode hescaped.1 hescaped.2 s hc

theorem freeOf_systemName {cs : List Char} (h : areEscaped cs = true) (hdollar : '$' ∉ cs)
    (name : String) : FreeOf cs (systemName name) := by
  rw [systemName]
  split
  · intro c hc
    rw [String.toList_append, List.mem_append] at hc
    rcases hc with hc | hc
    · rw [List.mem_singleton.1 hc]
      exact hdollar
    · exact freeOf_encode h _ c hc
  · exact freeOf_encode h name

theorem readName?_systemName (name : String) : readName? (systemName name) = some name := by
  rw [systemName]
  split
  · rename_i rest hname
    have hdollar : ("$" ++ Percent.encode (String.ofList rest)).toList =
        '$' :: (Percent.encode (String.ofList rest)).toList := by
      rw [String.toList_append]
      rfl
    rw [readName?, hdollar]
    simp only [String.ofList_toList, Text.Percent.decode?_encode, Option.map_some]
    have htext : ("_" ++ String.ofList rest).toList = name.toList := by
      simp [String.toList_append, hname]
    rw [String.toList_inj.1 htext]
  · have hfree : '$' ∉ (Percent.encode name).toList :=
      Text.Percent.not_mem_encode (by decide) (by decide) name
    rw [readName?]
    split
    · rename_i rest hrest
      rw [hrest] at hfree
      exact absurd List.mem_cons_self hfree
    · exact Text.Percent.decode?_encode name

theorem decode?_systemName {name : String} (h : isSystem name = true) :
    Percent.decode? (systemName name) = some ("$" ++ String.ofList name.toList.tail) := by
  rw [isSystem, decide_eq_true_eq] at h
  rw [systemName]
  split
  · rename_i rest hname
    rw [hname, Text.Percent.decode?_dollar_encode]
    rfl
  · rename_i hnot
    cases hname : name.toList with
    | nil => rw [hname] at h; cases h
    | cons c rest =>
      rw [hname] at h
      cases h
      exact absurd hname (hnot rest)

theorem undoubleQuotes_doubled (cs : List Char) :
    undoubleQuotes (cs.flatMap fun c => if c = '\x27' then ['\x27', '\x27'] else [c]) = some cs := by
  induction cs with
  | nil => rfl
  | cons c rest ih =>
    rw [List.flatMap_cons]
    by_cases hc : c = '\x27'
    · subst hc
      simp [undoubleQuotes, ih]
    · rw [if_neg hc, List.singleton_append, undoubleQuotes, if_neg hc, ih, Option.map_some]
      rintro _ rfl
      exact absurd rfl hc

/-- No JSON text begins with a quote of the kind that stands around strings here. -/
theorem head?_print_ne (value : Json) : value.print.toList.head? ≠ some '\x27' := by
  intro hhead
  rw [Json.print, String.toList_ofList] at hhead
  cases value with
  | null => cases hhead
  | bool b => cases b <;> cases hhead
  | number n =>
    have hmem : '\x27' ∈ n.text := List.mem_of_mem_head? hhead
    rcases Decimal.isNumeral_of_mem_numberText hmem with hdigit | hother
    · exact absurd hdigit (by decide)
    · exact absurd hother (by decide)
  | string s => cases hhead
  | array items => cases hhead
  | object members => cases hhead

theorem argumentText_string (s : String) :
    argumentText (.string s) = Percent.encode ("'" ++ doubleQuotes s ++ "'") := by
  have hquote : Percent.encode "'" = "'" := by
    rw [Text.Percent.encode, Text.Utf8.encode_eq]
    decide
  rw [Text.Percent.encode_append, Text.Percent.encode_append, hquote]
  rfl

theorem readLiteral?_argumentText (value : Json) :
    readLiteral? (argumentText value) = some (.ofJson value) := by
  have hjson : ∀ value : Json, readLiteral? (Percent.encode value.print) =
      some (.json value.print) := by
    intro value
    rw [readLiteral?, Text.Percent.decode?_encode, Option.bind_eq_bind, Option.bind_some]
    split
    · rename_i rest hrest
      have hhead := head?_print_ne value
      rw [hrest] at hhead
      exact absurd rfl hhead
    · rfl
  cases value with
  | string s =>
    have hquoted : ("'" ++ doubleQuotes s ++ "'").toList =
        '\x27' :: ((doubleQuotes s).toList ++ ['\x27']) := by
      simp [String.toList_append]
    rw [argumentText_string, readLiteral?, Text.Percent.decode?_encode, Option.bind_eq_bind,
      Option.bind_some, hquoted]
    simp only [List.getLast?_concat, if_true, List.dropLast_concat, doubleQuotes,
      String.toList_ofList, undoubleQuotes_doubled, Option.map_some, String.ofList_toList]
    rfl
  | null => exact hjson .null
  | bool b => exact hjson (.bool b)
  | number n => exact hjson (.number n)
  | array items => exact hjson (.array items)
  | object members => exact hjson (.object members)

theorem isSystem_of_mem_given {parameters : OrderedMap String Json} {system : Bool}
    {e : String × Json} (h : e ∈ given parameters system) : isSystem e.1 = system := by
  have hkept := (List.mem_filter.1 h).2
  rw [Bool.and_eq_true, beq_iff_eq] at hkept
  exact hkept.2

theorem id_mem_selected (select : List String) : "id" ∈ selected select :=
  List.mem_eraseDups.2 (List.mem_append_right _ (List.mem_singleton_self _))

theorem mem_selected {select : List String} {property : String} (h : property ∈ select) :
    property ∈ selected select :=
  List.mem_eraseDups.2 (List.mem_append_left _ h)

theorem readSelection?_select (select : List String) :
    readSelection? ("$select", String.intercalate "," ((selected select).map Percent.encode)) =
      some (select ++ ["id"]).eraseDups := by
  have hcommas : ∀ part ∈ ((selected select).map Percent.encode).map String.toList, ',' ∉ part := by
    intro part hpart
    rw [List.map_map] at hpart
    obtain ⟨property, _, rfl⟩ := List.mem_map.1 hpart
    exact Text.Percent.not_mem_encode (by decide) (by decide) property
  have hsome : ((selected select).map Percent.encode).map String.toList ≠ [] := by
    have hid := id_mem_selected select
    intro hnil
    rw [List.map_map, List.map_eq_nil_iff] at hnil
    rw [hnil] at hid
    cases hid
  rw [readSelection?, if_pos rfl, String.toList_intercalate]
  have hsplit := List.splitOn_intercalate ',' hcommas hsome
  rw [show ",".toList = [','] from rfl, hsplit, List.map_map]
  refine (mapM_map_eq_some (h := id) fun property _ => ?_).trans (congrArg some (List.map_id _))
  rw [Function.comp_apply, String.ofList_toList, Text.Percent.decode?_encode]
  rfl

theorem restores_ofCall (key : String) (parameters : OrderedMap String Json) (call : CallStyle)
    (select : Option (List String)) :
    (Parts.ofCall key parameters call select).Restores key parameters select where
  key := readName?_systemName key
  arguments := by
    have hall : ((given parameters false).map fun e =>
        (Percent.encode e.1, argumentText e.2)).mapM readArgument? =
        some ((given parameters false).map fun e => (e.1, Passed.ofJson e.2)) :=
      mapM_map_eq_some fun e _ => by
        rw [readArgument?, Text.Percent.decode?_encode, readLiteral?_argumentText]
        rfl
    rw [Parts.ofCall]
    dsimp only
    split
    · exact hall
    · rename_i hnone
      have hnil : given parameters false = [] := by
        by_contra hne
        exact hnone (.inr hne)
      rw [hnil]
      rfl
  options := by
    refine ⟨_, _, rfl, mapM_map_eq_some fun e he => ?_,
      mapM_map_eq_some fun l _ => readSelection?_select l⟩
    have hvalue : Percent.decode? (Percent.encode (optionText e.2)) =
        some (Passed.ofJson e.2).text := by
      rw [Text.Percent.decode?_encode]
      cases e.2 <;> rfl
    rw [readOption?, decode?_systemName (isSystem_of_mem_given he), hvalue]
    rfl

theorem freeOf_argumentText {cs : List Char} (h : areEscaped cs = true) (value : Json) :
    FreeOf cs (argumentText value) := by
  cases value with
  | string s =>
    rw [argumentText_string]
    exact freeOf_encode h _
  | _ => exact freeOf_encode h _

theorem delimited_ofCall (key : String) (parameters : OrderedMap String Json) (call : CallStyle)
    (select : Option (List String)) : (Parts.ofCall key parameters call select).Delimited where
  segment := freeOf_systemName (by decide) (by decide) key
  arguments := by
    intro l hl a ha
    rw [Parts.ofCall] at hl
    dsimp only at hl
    split at hl
    · cases hl
      obtain ⟨e, _, rfl⟩ := List.mem_map.1 ha
      exact ⟨freeOf_encode (by decide) _, freeOf_argumentText (by decide) _⟩
    · cases hl
  options := by
    intro o ho
    rcases List.mem_append.1 ho with ho | ho
    · obtain ⟨e, _, rfl⟩ := List.mem_map.1 ho
      exact ⟨freeOf_systemName (by decide) (by decide) _, freeOf_encode (by decide) _⟩
    · obtain ⟨l, _, rfl⟩ := List.mem_map.1 ho
      have hname : FreeOf ['=', '&'] "$select" := by decide
      refine ⟨hname, fun c hc hmem => ?_⟩
      rw [List.mem_singleton.1 hmem, String.toList_intercalate, List.map_map] at hc
      refine not_mem_intercalate (by decide) (fun part hpart => ?_) hc
      obtain ⟨property, _, rfl⟩ := List.mem_map.1 hpart
      exact Text.Percent.not_mem_encode (by decide) (by decide) property

/-- Trimming takes off the slashes at the end of a text, and nothing else. -/
theorem exists_trimEndSlashes (s : String) : ∃ slashes : String,
    s = Text.trimEndSlashes s ++ slashes ∧ (∀ c ∈ slashes.toList, c = '/') ∧
      (Text.trimEndSlashes s).toList.getLast? ≠ some '/' := by
  refine ⟨String.ofList (s.toList.reverse.takeWhile (· == '/')).reverse, ?_, ?_, ?_⟩
  · rw [Text.trimEndSlashes, Text.dropEndWhile, ← String.ofList_append, ← List.reverse_append,
      List.takeWhile_append_dropWhile, List.reverse_reverse, String.ofList_toList]
  · intro c hc
    rw [String.toList_ofList, List.mem_reverse] at hc
    exact beq_iff_eq.1 (List.all_eq_true.1 List.all_takeWhile c hc)
  · intro hlast
    rw [Text.trimEndSlashes, Text.dropEndWhile, String.toList_ofList, List.getLast?_reverse] at hlast
    have hnot := List.head?_dropWhile_not (· == '/') s.toList.reverse
    rw [hlast] at hnot
    exact absurd hnot (by decide)

/-- Every URL has unique parts, and they give back what it was made from. -/
theorem unique_parts_of_under (resource key : String) (parameters : OrderedMap String Json)
    (call : CallStyle) (select : Option (List String)) :
    ∃ base slashes : String, resource = base ++ slashes ∧ (∀ c ∈ slashes.toList, c = '/') ∧
      base.toList.getLast? ≠ some '/' ∧
      ∃ p : Parts, under resource key parameters call select = base ++ p.text ∧ p.Delimited ∧
        (∀ q : Parts, q.Delimited → q.text = p.text → q = p) ∧
        (p.arguments.isSome = true ↔ call = .function ∨ given parameters false ≠ []) ∧
        p.Restores key parameters select := by
  obtain ⟨slashes, hresource, hslashes, hlast⟩ := exists_trimEndSlashes resource
  have hdelimited := delimited_ofCall key parameters call select
  refine ⟨Text.trimEndSlashes resource, slashes, hresource, hslashes, hlast,
    .ofCall key parameters call select, ?_, hdelimited, fun q hq => Parts.text_inj hq hdelimited, ?_,
    restores_ofCall key parameters call select⟩
  · rw [text_ofCall, under, String.append_assoc]
  · rw [Parts.ofCall]
    dsimp only
    split
    · rename_i h
      simpa using h
    · rename_i h
      simpa using h

end ODataGraph.Url
