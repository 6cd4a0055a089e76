import ODataGraph.Proofs.Json.Validity
import ODataGraph.Proofs.Operation.Constant
import ODataGraph.Registry.Sdl

/-!
Reading the values of directives where a schema prints them. Between braces, brackets, colons and
commas each value is read to its end and no further, whatever is printed after it.
-/

namespace ODataGraph

namespace Sdl

def literalMember (member : String × Json) : List Char :=
  member.1.toList ++ ':' :: ' ' :: literal member.2

theorem literalItems_eq (items : List Json) :
    literalItems items = [',', ' '].intercalate (items.map literal) := by
  induction items with
  | nil => rfl
  | cons item items ih =>
    cases items with
    | nil => rw [literalItems, List.map_singleton, List.intercalate_singleton]
    | cons next items =>
      rw [List.map_cons] at ih
      rw [literalItems, ih, List.map_cons, List.map_cons, List.intercalate_cons_cons]
      · simp
      · nofun

theorem literalMembers_eq (members : List (String × Json)) :
    literalMembers members = [',', ' '].intercalate (members.map literalMember) := by
  induction members with
  | nil => rfl
  | cons member members ih =>
    obtain ⟨name, value⟩ := member
    cases members with
    | nil => rw [literalMembers, List.map_singleton, List.intercalate_singleton, literalMember]
    | cons next members =>
      rw [List.map_cons] at ih
      rw [literalMembers, ih, List.map_cons, List.map_cons, List.intercalate_cons_cons]
      · simp [literalMember]
      · nofun

end Sdl

namespace Graphql

variable {isConstant : Bool} {depth : Nat}

/-- All are names in GraphQL. -/
def AreNames (names : List String) : Prop := ∀ name ∈ names, isName name = true

instance : DecidablePred AreNames := fun names =>
  inferInstanceAs (Decidable (∀ name ∈ names, isName name = true))

theorem readValue_of_skip_eq {cs cs' : List Char} (h : skip cs = skip cs') :
    readValue isConstant depth cs = readValue isConstant depth cs' := by
  cases depth with
  | zero => rfl
  | succ depth => rw [readValue, readValue, h]

/-- A number or a word is read if nothing else begins. -/
theorem readValue_cons {c : Char} {cs : List Char} (hbegins : BeginsToken (c :: cs))
    (hc : c ∉ ['$', '"', '[', '\x7b']) : readValue isConstant (depth + 1) (c :: cs) =
      if c = '-' ∨ c.isDigit then
        (readNumber (c :: cs)).map fun (n, rest) => (.number n.value?, rest)
      else readWord (c :: cs) := by
  simp only [List.mem_cons, List.not_mem_nil, or_false, not_or] at hc
  obtain ⟨hdollar, hquote, hbracket, hbrace⟩ := hc
  rw [readValue, skip_eq_self hbegins]
  split
  · rename_i heq
    exact absurd (List.cons.inj heq).1 hdollar
  · rename_i heq
    exact absurd (List.cons.inj heq).1 hquote
  · rename_i heq
    exact absurd (List.cons.inj heq).1 hbracket
  · rename_i heq
    exact absurd (List.cons.inj heq).1 hbrace
  · rename_i heq
    cases heq
    rfl
  · rename_i heq
    cases heq

theorem readValue_number (n : Json.Number) {rest : List Char} (hrest : Ends rest) :
    readValue isConstant (depth + 1) (n.text ++ rest) = some (.number n.reread?, rest) := by
  have hread := readNumber_append n.wellFormed_numeral hrest
  obtain ⟨c, cs, hcons, hc⟩ := n.wellFormed_numeral.text_eq_cons
  rw [Json.Number.text_numeral] at hread hcons
  rw [hcons] at hread ⊢
  have hbegins : BeginsToken (c :: (cs ++ rest)) := by
    rcases hc with rfl | hdigit
    · exact beginsToken_cons (by decide) (by decide) _
    · exact beginsToken_of_isNameChar (isNameChar_of_isDigit hdigit) _
  have hother : c ∉ ['$', '"', '[', '\x7b'] := by
    intro hmem
    have hall : ['$', '"', '[', '\x7b'].all (fun d => !(d == '-' || d.isDigit)) = true := by decide
    have hnone := List.all_eq_true.1 hall c hmem
    rw [Bool.not_eq_true', Bool.or_eq_false_iff, beq_eq_false_iff_ne] at hnone
    exact hc.elim hnone.1 (Bool.eq_false_iff.1 hnone.2)
  rw [List.cons_append] at hread ⊢
  rw [readValue_cons hbegins hother, if_pos hc, hread, Json.Number.reread?_eq]
  rfl

theorem readValue_string (text : String) {rest : List Char} (hrest : Ends rest) :
    readValue isConstant (depth + 1) (Json.quoted text ++ rest) = some (.string text, rest) := by
  have hread : Text.read (Json.quoted text ++ rest) = some (text.toList, rest) :=
    Text.read_quoted text fun hquote => (hrest _ hquote).2.2 rfl
  change (Text.read (Json.quoted text ++ rest)).map _ = _
  simp only [hread, Option.map_some, String.ofList_toList]

theorem readValue_bracket (rest : List Char) : readValue isConstant depth (']' :: rest) = none := by
  cases depth with
  | zero => rfl
  | succ depth =>
    rw [readValue_cons (beginsToken_cons (by decide) (by decide) _) (by decide)]
    rfl

theorem readValue_list {cs rest : List Char} {items : List Value}
    (h : ReadsAll (readValue isConstant depth) cs items (']' :: rest)) :
    readValue isConstant (depth + 1) ('[' :: cs) = some (.list items, rest) := by
  have hopening : BeginsToken ('[' :: cs) := beginsToken_cons (by decide) (by decide) _
  have hitems := h.readBetween_eq hopening (beginsToken_cons (by decide) (by decide) _)
  change (readBetween '[' ']' (readValue isConstant depth) ('[' :: cs)).map _ = _
  rw [hitems, Option.map_some]

theorem readValue_object {cs rest : List Char} {members : List (String × Value)}
    (h : ReadsAll (readMember (readValue isConstant depth)) cs members ('}' :: rest)) :
    readValue isConstant (depth + 1) ('{' :: cs) = some (.object members, rest) := by
  have hopening : BeginsToken ('{' :: cs) := beginsToken_cons (by decide) (by decide) _
  have hmembers := h.readBetween_eq hopening (beginsToken_cons (by decide) (by decide) _)
  change (readBetween '{' '}' (readMember (readValue isConstant depth)) ('{' :: cs)).map _ = _
  rw [hmembers, Option.map_some]

end Graphql

namespace Sdl

open Graphql

variable {isConstant : Bool} {P : List String → Prop}

theorem literal_ne_nil (value : Json) : literal value ≠ [] := by
  cases value with
  | bool value => cases value <;> nofun
  | number n =>
    obtain ⟨c, cs, hcons, _⟩ := n.wellFormed_numeral.text_eq_cons
    rw [Json.Number.text_numeral] at hcons
    rw [literal, Json.printChars, hcons]
    · nofun
    · nofun
    · nofun
  | _ => nofun

theorem length_le_of_mem_intercalate {α : Type} {sep l : List α} {ls : List (List α)}
    (h : l ∈ ls) : l.length ≤ (sep.intercalate ls).length := by
  induction ls with
  | nil => cases h
  | cons first ls ih =>
    cases ls with
    | nil =>
      rw [List.mem_singleton.1 h, List.intercalate_singleton]
    | cons next ls =>
      rw [List.intercalate_cons_cons, List.append_assoc, List.length_append, List.length_append]
      rcases List.mem_cons.1 h with rfl | h
      · exact Nat.le_add_right _ _
      · have := ih h
        omega

theorem skip_separator (cs : List Char) : skip (',' :: ' ' :: cs) = skip cs := by
  rw [skip_cons (by decide), skip_cons (by decide)]

theorem readMember_literalMember {read : List Char → Option (Value × List Char)}
    (hskip : ∀ cs, read (' ' :: cs) = read cs) {member : String × Json} {v : Value}
    {rest : List Char} (hname : isName member.1 = true)
    (h : read (literal member.2 ++ rest) = some (v, rest)) :
    readMember read (literalMember member ++ rest) = some ((member.1, v), rest) := by
  have hread : readName (member.1.toList ++ (':' :: ' ' :: (literal member.2 ++ rest))) = _ :=
    readName_append hname (stops_cons (by decide) _)
  have hcolon (cs : List Char) : skip (':' :: cs) = ':' :: cs :=
    skip_eq_self (beginsToken_cons (by decide) (by decide) cs)
  simp [literalMember, readMember, hread, hcolon, hskip, h]

theorem readMember_separator {read : List Char → Option (Value × List Char)} (cs : List Char) :
    readMember read (',' :: ' ' :: cs) = readMember read cs := by
  rw [readMember, readMember, readName, skip_separator, ← readName]

/-- Members are read up to what closes them. -/
theorem readsAll_literalMembers {read : List Char → Option (Value × List Char)}
    (hskip : ∀ cs, read (' ' :: cs) = read cs) {f : Json → Value}
    {members : List (String × Json)} (hnames : AreNames (members.map Prod.fst))
    (hread : ∀ m ∈ members, ∀ rest, Ends rest →
      read (literal m.2 ++ rest) = some (f m.2, rest))
    {closing : Char} (hclosing : closing = '}' ∨ closing = ')') (rest : List Char) :
    ReadsAll (readMember read) (literalMembers members ++ closing :: rest)
      (members.map fun m => (m.1, f m.2)) (closing :: rest) := by
  have hnone : readMember read (closing :: rest) = none := by
    rcases hclosing with rfl | rfl <;> rfl
  have hends : Ends (closing :: rest) := by
    rcases hclosing with rfl | rfl <;> exact ends_cons (by decide) (by decide) (by decide) _
  rw [literalMembers_eq]
  refine readsAll_intercalate hnone hends readMember_separator members ?_ fun m hm rest hrest => ?_
  · intro m _
    simp [literalMember]
  · exact readMember_literalMember hskip (hnames _ (List.mem_map_of_mem hm)) (hread m hm rest hrest)

theorem exists_eq_succ_of_length_literal_le {value : Json} {depth : Nat}
    (h : (literal value).length ≤ depth) : ∃ n, depth = n + 1 :=
  Nat.exists_eq_add_of_le' (Nat.le_trans (List.length_pos_iff.2 (literal_ne_nil value)) h)

theorem length_literal_le_of_mem_items {items : List Json} {value : Json} (h : value ∈ items) :
    (literal value).length ≤ (literalItems items).length := by
  rw [literalItems_eq]
  exact length_le_of_mem_intercalate (List.mem_map_of_mem h)

theorem length_literal_le_of_mem_members {members : List (String × Json)} {m : String × Json}
    (h : m ∈ members) : (literal m.2).length ≤ (literalMembers members).length := by
  have hle : (literal m.2).length ≤ (literalMember m).length := by
    simp only [literalMember, List.length_append, List.length_cons]
    omega
  rw [literalMembers_eq]
  exact Nat.le_trans hle (length_le_of_mem_intercalate (List.mem_map_of_mem h))

/-- A value is read where it is printed, with what its numbers are read as. -/
theorem readValue_literal {value : Json}
    (h : value.Keyed AreNames) {depth : Nat}
    {rest : List Char} (hdepth : (literal value).length ≤ depth) (hrest : Ends rest) :
    readValue isConstant depth (literal value ++ rest) =
      some (.ofJsonWith Json.Number.reread? value, rest) := by
  induction h generalizing depth rest with
  | null =>
    obtain ⟨depth, rfl⟩ := exists_eq_succ_of_length_literal_le hdepth
    rfl
  | bool value =>
    obtain ⟨depth, rfl⟩ := exists_eq_succ_of_length_literal_le hdepth
    cases value <;> rfl
  | number n =>
    obtain ⟨depth, rfl⟩ := exists_eq_succ_of_length_literal_le hdepth
    exact readValue_number n hrest
  | string text =>
    obtain ⟨depth, rfl⟩ := exists_eq_succ_of_length_literal_le hdepth
    exact readValue_string text hrest
  | @array items h ih =>
    obtain ⟨depth, rfl⟩ := exists_eq_succ_of_length_literal_le hdepth
    have hlength : (literalItems items).length ≤ depth := by
      simp only [literal, List.length_append, List.length_cons] at hdepth
      omega
    have hitems : ReadsAll (readValue isConstant depth) (literalItems items ++ ']' :: rest)
        (items.map (Value.ofJsonWith Json.Number.reread?)) (']' :: rest) := by
      rw [literalItems_eq]
      refine readsAll_intercalate (readValue_bracket rest)
        (ends_cons (by decide) (by decide) (by decide) rest)
        (fun cs => readValue_of_skip_eq (skip_separator cs)) items
        (fun v _ => literal_ne_nil v) fun v hv rest hrest => ?_
      exact ih v hv (Nat.le_trans (length_literal_le_of_mem_items hv) hlength) hrest
    rw [literal, List.cons_append, List.cons_append, List.append_assoc, List.singleton_append,
      Value.ofJsonWith, Value.ofItems_eq_map]
    exact readValue_list hitems
  | @object members hnames h ih =>
    obtain ⟨depth, rfl⟩ := exists_eq_succ_of_length_literal_le hdepth
    have hlength : (literalMembers members).length ≤ depth := by
      simp only [literal, List.length_append, List.length_cons] at hdepth
      omega
    have hmembers : ReadsAll (readMember (readValue isConstant depth))
        (literalMembers members ++ '}' :: rest)
        (members.map fun m => (m.1, Value.ofJsonWith Json.Number.reread? m.2)) ('}' :: rest) := by
      refine readsAll_literalMembers (fun cs => readValue_of_skip_eq (skip_cons (by decide) cs))
        hnames (fun m hm rest hrest => ?_) (.inl rfl) rest
      exact ih m hm (Nat.le_trans (length_literal_le_of_mem_members hm) hlength) hrest
    rw [literal, List.cons_append, List.cons_append, List.append_assoc, List.singleton_append,
      Value.ofJsonWith, Value.ofMembers_eq_map]
    exact readValue_object hmembers

/-! ### Directives -/

/-- A directive as it is read, with what the numbers in its arguments are read as. -/
def readBack (d : Directive) : Graphql.Directive where
  name := d.name
  arguments := d.arguments.entries.map fun a => (a.1, Value.ofJsonWith Json.Number.reread? a.2)

/-- The name of a directive, those of its arguments and of the members in their values are names in
GraphQL. -/
structure HasNames (d : Directive) : Prop where
  name : isName d.name = true
  arguments : AreNames d.arguments.keys
  values : ∀ a ∈ d.arguments.entries, a.2.Keyed AreNames

/-- Nothing comes first that a name of a directive could go on with, and no arguments. -/
def EndsDirective (rest : List Char) : Prop := Stops isNameChar rest ∧ (skip rest).head? ≠ some '('

variable {d : Directive} {rest : List Char}

theorem toList_directive (d : Directive) : (directive d).toList = ' ' :: '@' :: (d.name.toList ++
    if d.arguments.isEmpty then [] else '(' :: (literalMembers d.arguments.entries ++ [')'])) := by
  rw [directive]
  split <;> simp

theorem readArguments_of_head? (h : (skip rest).head? ≠ some '(') :
    readArguments rest = some ([], rest) := by
  rw [readArguments, readIf, if_neg h]

theorem readArguments_literalMembers (hd : HasNames d) (hne : d.arguments.isEmpty = false)
    (rest : List Char) :
    readArguments ('(' :: (literalMembers d.arguments.entries ++ ')' :: rest)) =
      some ((readBack d).arguments, rest) := by
  have hopening : ∀ cs, BeginsToken ('(' :: cs) := beginsToken_cons (by decide) (by decide)
  have hsome : (readBack d).arguments.isEmpty = false := List.isEmpty_map.trans hne
  generalize hcs : '(' :: (literalMembers d.arguments.entries ++ ')' :: rest) = cs
  have hmembers : ReadsAll (readMember (readValue false cs.length))
      (literalMembers d.arguments.entries ++ ')' :: rest) (readBack d).arguments (')' :: rest) := by
    refine readsAll_literalMembers (fun cs => readValue_of_skip_eq (skip_cons (by decide) cs))
      hd.arguments (fun a ha rest hrest => ?_) (.inr rfl) rest
    refine readValue_literal (hd.values a ha) ?_ hrest
    have hlength := length_literal_le_of_mem_members ha
    rw [← hcs, List.length_cons, List.length_append]
    omega
  have hbetween := hmembers.readBetween_eq (hopening _) (beginsToken_cons (by decide) (by decide) _)
  rw [hcs] at hbetween
  rw [readArguments, readIf, ← hcs, if_pos, hcs, readSome, hbetween]
  · simp [hsome]
  · rw [skip_eq_self (hopening _)]
    rfl

theorem skip_directive (cs : List Char) : skip (' ' :: '@' :: cs) = '@' :: cs := by
  rw [skip_cons (by decide), skip_eq_self (beginsToken_cons (by decide) (by decide) cs)]

theorem readDirective_directive (hd : HasNames d) (hrest : EndsDirective rest) :
    readDirective ((directive d).toList ++ rest) = some (readBack d, rest) := by
  rw [toList_directive, List.cons_append, List.cons_append, List.append_assoc, readDirective,
    skip_directive]
  cases hempty : d.arguments.isEmpty with
  | true =>
    have hname := readName_append hd.name hrest.1
    have harguments := readArguments_of_head? hrest.2
    have hnil : (readBack d).arguments = [] := by
      rw [readBack, List.isEmpty_iff.1 hempty, List.map_nil]
    simp [hname, harguments, ← hnil, readBack]
  | false =>
    have hname := readName_append hd.name (stops_cons (c := '(') (by decide)
      (literalMembers d.arguments.entries ++ ')' :: rest))
    have harguments := readArguments_literalMembers hd hempty rest
    simp [hname, harguments, readBack]

theorem readDirective_of_head? (h : (skip rest).head? ≠ some '@') : readDirective rest = none := by
  have hnone : ∀ cs, skip rest ≠ '@' :: cs := by
    intro cs heq
    rw [heq] at h
    exact h rfl
  rw [readDirective]
  split
  · rename_i cs heq
    exact absurd heq (hnone cs)
  · rfl

theorem toList_directives_cons (d : Directive) (ds : List Directive) :
    (directives (d :: ds)).toList = (directive d).toList ++ (directives ds).toList := by
  rw [directives, List.map_cons, String.join_cons, String.toList_append, ← directives]

/-- A directive can be followed by others. -/
theorem EndsDirective.directives_append (h : EndsDirective rest) (ds : List Directive) :
    EndsDirective ((directives ds).toList ++ rest) := by
  cases ds with
  | nil => exact h
  | cons d ds =>
    rw [toList_directives_cons, toList_directive, List.cons_append, List.cons_append,
      List.cons_append, List.cons_append]
    refine ⟨stops_cons (by decide) _, ?_⟩
    rw [skip_directive]
    nofun

theorem readsAll_directives {ds : List Directive} (hds : ∀ d ∈ ds, HasNames d)
    (hrest : EndsDirective rest) (hend : (skip rest).head? ≠ some '@') :
    ReadsAll readDirective ((directives ds).toList ++ rest) (ds.map readBack) rest := by
  induction ds with
  | nil => exact .nil (readDirective_of_head? hend)
  | cons d ds ih =>
    obtain ⟨hd, hds⟩ := List.forall_mem_cons.1 hds
    rw [toList_directives_cons, List.append_assoc, List.map_cons]
    refine .cons (readDirective_directive hd (hrest.directives_append ds)) ?_ (ih hds)
    have hpos : 0 < (directive d).toList.length := by
      rw [toList_directive]
      exact Nat.succ_pos _
    simp only [List.length_append]
    omega

theorem readDirectives_directives {ds : List Directive} (hds : ∀ d ∈ ds, HasNames d)
    (hrest : EndsDirective rest) (hend : (skip rest).head? ≠ some '@') :
    readDirectives ((directives ds).toList ++ rest) = (ds.map readBack, rest) := by
  have hread := readsAll_directives hds hrest hend
  exact hread.readMany_eq (Nat.le_of_add_right_le hread.length_le)

/-- Literals are read back. Where a value is printed it is read to its end and no further, and comes
to the same value but for its numbers: each of these is read from its digits as a number in range,
and as the same one if it is exact. So are the arguments of directives where these are printed.
Values that are read from JSON texts are as the first part wants them, but for the names. -/
theorem literal_readBack :
    (∀ value : Json, value.HasDistinctKeys → value.Keyed AreNames →
      (∀ n ∈ value.numbers, n.IsValid) →
        (∀ isConstant depth rest, (literal value).length ≤ depth → Ends rest →
          readValue isConstant depth (literal value ++ rest) =
            some (.ofJsonWith Json.Number.reread? value, rest)) ∧
        (∀ b, (Value.ofJsonWith Json.Number.reread? value).evaluate b =
          .ok (value.mapNumbers Json.Number.reread)) ∧
        ((∀ n ∈ value.numbers, n.IsExact) → value.mapNumbers Json.Number.reread = value)) ∧
    (∀ (ds : List Directive) (rest : List Char), (∀ d ∈ ds, HasNames d) → EndsDirective rest →
      (skip rest).head? ≠ some '@' →
        readDirectives ((directives ds).toList ++ rest) = (ds.map readBack, rest)) ∧
    ∀ text value, Json.parse? text = some value →
      value.HasDistinctKeys ∧ ∀ n ∈ value.numbers, n.IsValid := by
  refine ⟨fun value hdistinct hnames hvalid => ⟨?_, fun b => ?_, fun hexact => ?_⟩,
    fun ds rest => readDirectives_directives, fun text value hparse => ?_⟩
  · exact fun _ _ _ => readValue_literal hnames
  · exact Value.evaluate_ofJsonWith hdistinct fun n hn => Json.Number.reread?_eq_some (hvalid n hn)
  · exact Json.mapNumbers_eq_self fun n hn => Json.Number.reread_of_isExact (hexact n hn)
  · have hdenoted := Json.denoted_of_parse? hparse
    exact ⟨hdenoted.hasDistinctKeys, hdenoted.isValid⟩

end Sdl

/-! A directive with a string that has a quote in it, an empty one and exact numbers. -/

namespace Weighed

open Graphql

def value : Json := .object [
  ("tags", .array [.string "a\"b", .string "", .null]),
  ("share", .number (.float ⟨0x3fd0000000000000⟩)),
  ("whole", .number (.int (-7)))]

def weight : Directive where
  name := "weight"
  arguments := .ofList [("of", value)]

theorem keyed {P : List String → Prop} (h : P ["tags", "share", "whole"]) : value.Keyed P := by
  refine .object h ?_
  simp only [List.forall_mem_cons]
  refine ⟨.array ?_, .number _, .number _, List.forall_mem_nil _⟩
  simp only [List.forall_mem_cons]
  exact ⟨.string _, .string _, .null, List.forall_mem_nil _⟩

theorem hasNames : Sdl.HasNames weight where
  name := by decide
  arguments := by decide
  values a ha := by
    cases List.mem_singleton.1 ha
    exact keyed (by decide)

end Weighed

theorem literal_readBack_of_weighed :
    (Weighed.value.HasDistinctKeys ∧ Weighed.value.Keyed Graphql.AreNames ∧
      ∀ n ∈ Weighed.value.numbers, n.IsValid ∧ n.IsExact) ∧
    (∃ read, Graphql.readValue true 99 (Sdl.literal Weighed.value) = some (read, []) ∧
      read.evaluate ∅ = .ok Weighed.value) ∧
    Sdl.HasNames Weighed.weight ∧
    Graphql.readDirectives ((Sdl.directives [Weighed.weight]).toList ++ [' ', '\x7b']) =
      ([Sdl.readBack Weighed.weight], [' ', '\x7b']) := by
  have hdistinct : Weighed.value.HasDistinctKeys := Weighed.keyed (by decide)
  have hnames : Weighed.value.Keyed Graphql.AreNames := Weighed.keyed (by decide)
  have hnumbers : ∀ n ∈ Weighed.value.numbers, n.IsValid ∧ n.IsExact := by decide +kernel
  have hlength : (Sdl.literal Weighed.value).length ≤ 99 := by decide +kernel
  obtain ⟨hread, hvalue, hexact⟩ :=
    Sdl.literal_readBack.1 Weighed.value hdistinct hnames fun n hn => (hnumbers n hn).1
  have hread := hread true 99 [] hlength nofun
  have hvalue := hvalue ∅
  rw [List.append_nil] at hread
  rw [hexact fun n hn => (hnumbers n hn).2] at hvalue
  have hweight := Weighed.hasNames
  refine ⟨⟨hdistinct, hnames, hnumbers⟩, ⟨_, hread, hvalue⟩, hweight, ?_⟩
  have hall := List.forall_mem_singleton.2 hweight
  refine Sdl.literal_readBack.2.1 [Weighed.weight] _ hall ⟨?_, ?_⟩ ?_
  · exact Graphql.stops_cons (by decide) _
  · decide
  · decide

namespace Coarse

/-- A number that is printed as `3e+23`. -/
def number : Json.Number := .float ⟨0x44cfc3842bd1f072⟩

/-- Its neighbour, which is read there: `10 ^ 23` is rounded before it is multiplied. -/
def neighbour : Json.Number := .float ⟨0x44cfc3842bd1f071⟩

theorem reread?_number : number.reread? = some neighbour ∧ neighbour.text ≠ number.text := by
  decide +kernel

end Coarse

/-- Not all values are read back as they are printed, not even when numbers are compared by their
texts. -/
theorem not_forall_literal_readBack : ¬ ∀ value : Json, value.HasDistinctKeys →
    value.Keyed Graphql.AreNames → (∀ n ∈ value.numbers, n.IsValid) →
      ∃ read j, Graphql.readValue true (Sdl.literal value).length (Sdl.literal value) =
        some (read, []) ∧ read.evaluate ∅ = .ok j ∧ j.print = value.print := by
  intro h
  obtain ⟨hneighbour, htext⟩ := Coarse.reread?_number
  have hvalid : ∀ n ∈ (Json.number Coarse.number).numbers, n.IsValid := by decide
  obtain ⟨read, j, hread, hj, hprint⟩ := h (.number Coarse.number) (.number _) (.number _) hvalid
  have hliteral : Graphql.readValue true _ (Sdl.literal (.number Coarse.number) ++ []) = _ :=
    Sdl.readValue_literal (.number Coarse.number) (Nat.le_refl _) nofun
  rw [List.append_nil, hread, Graphql.Value.ofJsonWith, hneighbour] at hliteral
  cases hliteral
  cases hj
  exact htext (String.ofList_injective hprint)

end ODataGraph
