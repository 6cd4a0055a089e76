import Mathlib.Data.List.Basic
import ODataGraph.Proofs.Graphql.Token
import ODataGraph.Registry.Sdl

/-!
Descriptions as block strings. Whatever quotes and backslashes a description has, its block string
ends where it was meant to, and its lines are those of the description.
-/

namespace ODataGraph

namespace Text

variable {sep : Char}

theorem cut_intercalate {parts : List (List Char)} (hne : parts ≠ [])
    (hparts : ∀ part ∈ parts, sep ∉ part) : cut sep ([sep].intercalate parts) = parts := by
  induction parts with
  | nil => exact absurd rfl hne
  | cons part parts ih =>
    obtain ⟨hpart, hparts⟩ := List.forall_mem_cons.1 hparts
    cases parts with
    | nil => rw [List.intercalate_singleton, cut_eq_self hpart]
    | cons next parts =>
      rw [List.intercalate_cons_cons, List.append_assoc, List.singleton_append, cut_append,
        cut_eq_self hpart, ih nofun hparts, List.singleton_append]

/-- A carriage return at the end of a line is no part of it. -/
def dropReturn (line : List Char) : List Char :=
  if line.getLast? = some '\r' then line.dropLast else line

theorem lines_eq (s : String) : lines s =
    (((cut '\n' s.toList).dropLast.map dropReturn) ++
      if ((cut '\n' s.toList).getLastD []).isEmpty then [] else
        [(cut '\n' s.toList).getLastD []]).map String.ofList :=
  rfl

theorem not_mem_of_mem_lines {s line : String} (h : line ∈ lines s) : '\n' ∉ line.toList := by
  rw [lines_eq] at h
  obtain ⟨cs, hcs, rfl⟩ := List.mem_map.1 h
  rw [String.toList_ofList]
  rcases List.mem_append.1 hcs with hended | hlast
  · obtain ⟨part, hpart, rfl⟩ := List.mem_map.1 hended
    have hfree := not_mem_of_mem_cut ((List.dropLast_sublist _).subset hpart)
    rw [dropReturn]
    split
    · exact fun hmem => hfree ((List.dropLast_sublist _).subset hmem)
    · exact hfree
  · split at hlast
    · cases hlast
    · rw [List.mem_singleton.1 hlast, List.getLastD_eq_getLast?,
        List.getLast?_eq_some_getLast (cut_ne_nil _ _), Option.getD_some]
      exact not_mem_of_mem_cut (List.getLast_mem _)

theorem eq_nil_of_cut_eq {cs : List Char} (h : cut sep cs = [[]]) : cs = [] := by
  cases cs with
  | nil => rfl
  | cons c cs =>
    rw [cut] at h
    split at h
    · exact absurd (List.cons.inj h).2 (cut_ne_nil _ _)
    · split at h <;> cases h

theorem lines_ne_nil {s : String} (h : s ≠ "") : lines s ≠ [] := by
  intro hnil
  rw [lines_eq, List.map_eq_nil_iff, List.append_eq_nil_iff, List.map_eq_nil_iff] at hnil
  obtain ⟨hended, hlast⟩ := hnil
  have hcut := List.dropLast_append_getLast (cut_ne_nil '\n' s.toList)
  rw [List.getLastD_eq_getLast?, List.getLast?_eq_some_getLast (cut_ne_nil _ _),
    Option.getD_some] at hlast
  split at hlast
  · rename_i hempty
    rw [hended, List.nil_append, List.isEmpty_iff.1 hempty] at hcut
    exact h (String.toList_eq_nil_iff.1 (eq_nil_of_cut_eq hcut.symm))
  · cases hlast

end Text

namespace Sdl

variable {c : Char} {cs rest : List Char}

theorem prefix_append_cons_iff {part : List Char} (hc : c ∉ part) :
    part <+: cs ++ c :: rest ↔ part <+: cs := by
  induction part generalizing cs with
  | nil => exact ⟨fun _ => List.nil_prefix, fun _ => List.nil_prefix⟩
  | cons d part ih =>
    rw [List.mem_cons, not_or] at hc
    obtain ⟨hd, hpart⟩ := hc
    cases cs with
    | nil => simp [List.cons_prefix_cons, Ne.symm hd]
    | cons e cs => rw [List.cons_append, List.cons_prefix_cons, List.cons_prefix_cons, ih hpart]

/-! ### Escaped quotes -/

def quotes : List Char := ['"', '"', '"']

@[simp] theorem escapeQuotes_nil : escapeQuotes [] = [] := rfl

@[simp] theorem escapeQuotes_quotes (cs : List Char) :
    escapeQuotes ('"' :: '"' :: '"' :: cs) = '\\' :: '"' :: '"' :: '"' :: escapeQuotes cs := rfl

theorem escapeQuotes_cons (h : ¬ quotes <+: c :: cs) :
    escapeQuotes (c :: cs) = c :: escapeQuotes cs := by
  rw [escapeQuotes]
  rintro rest rfl rfl
  exact h ⟨rest, rfl⟩

/-- A text is empty, begins with three quotes or begins with something that is kept. -/
@[elab_as_elim]
theorem induction_quotes {motive : List Char → Prop} (nil : motive [])
    (quotes : ∀ cs, motive cs → motive ('"' :: '"' :: '"' :: cs))
    (cons : ∀ c cs, ¬ Sdl.quotes <+: c :: cs → motive cs → motive (c :: cs)) (cs : List Char) :
    motive cs := by
  induction cs using escapeQuotes.induct with
  | case1 cs ih => exact quotes cs ih
  | case2 c cs hquotes ih =>
    refine cons c cs ?_ ih
    rintro ⟨rest, heq⟩
    cases heq
    exact hquotes _ rfl rfl
  | case3 => exact nil

theorem prefix_of_prefix_escapeQuotes {part : List Char} (hpart : '\\' ∉ part)
    (h : part <+: escapeQuotes cs) : part <+: cs := by
  induction part generalizing cs with
  | nil => exact List.nil_prefix
  | cons d part ih =>
    rw [List.mem_cons, not_or] at hpart
    induction cs using induction_quotes with
    | nil => exact h
    | quotes cs => exact absurd (List.cons_prefix_cons.1 h).1.symm hpart.1
    | cons c cs hfirst =>
      rw [escapeQuotes_cons hfirst, List.cons_prefix_cons] at h
      exact List.cons_prefix_cons.2 ⟨h.1, ih hpart.2 h.2⟩

/-- Escaped, no text begins with three quotes. -/
theorem not_quotes_prefix_escapeQuotes (cs : List Char) : ¬ quotes <+: escapeQuotes cs := by
  intro h
  obtain ⟨rest, rfl⟩ := prefix_of_prefix_escapeQuotes (by decide) h
  exact absurd (List.cons_prefix_cons.1 h).1 (by decide)

theorem escapeQuotes_append (cs : List Char) (hc : c ∉ quotes) (rest : List Char) :
    escapeQuotes (cs ++ c :: rest) = escapeQuotes cs ++ c :: escapeQuotes rest := by
  induction cs using induction_quotes with
  | quotes cs ih => simp [ih]
  | cons d cs hfirst ih =>
    have hall : ¬ quotes <+: d :: (cs ++ c :: rest) := by
      rwa [← List.cons_append, prefix_append_cons_iff hc]
    rw [List.cons_append, escapeQuotes_cons hall, escapeQuotes_cons hfirst, ih, List.cons_append]
  | nil =>
    have hall : ¬ quotes <+: c :: rest := by
      rw [← List.nil_append (c :: rest), prefix_append_cons_iff hc]
      decide
    exact escapeQuotes_cons hall

theorem getLast?_escapeQuotes (cs : List Char) : (escapeQuotes cs).getLast? = cs.getLast? := by
  induction cs using induction_quotes with
  | nil => rfl
  | quotes cs ih => simp [List.getLast?_cons, ih]
  | cons d cs hfirst ih => simp [escapeQuotes_cons hfirst, List.getLast?_cons, ih]

theorem mem_escapeQuotes (cs : List Char) (hc : c ≠ '\\') :
    c ∈ escapeQuotes cs ↔ c ∈ cs := by
  induction cs using induction_quotes with
  | nil => rfl
  | quotes cs ih => simp [ih, hc]
  | cons d cs hfirst ih => simp [escapeQuotes_cons hfirst, ih]

theorem isEmpty_escapeQuotes (cs : List Char) : (escapeQuotes cs).isEmpty = cs.isEmpty := by
  induction cs using induction_quotes with
  | nil => rfl
  | quotes cs => rfl
  | cons d cs hfirst => rw [escapeQuotes_cons hfirst, List.isEmpty_cons, List.isEmpty_cons]

/-! ### Lines of escaped texts -/

theorem cut_escapeQuotes (cs : List Char) :
    Text.cut '\n' (escapeQuotes cs) = (Text.cut '\n' cs).map escapeQuotes := by
  -- three quotes never have a line feed among them, so each side of one is escaped on its own
  induction hn : cs.length using Nat.strongRecOn generalizing cs with
  | ind n ih =>
    by_cases hmem : '\n' ∈ cs
    · obtain ⟨start, rest, rfl⟩ := List.append_of_mem hmem
      rw [List.length_append, List.length_cons] at hn
      rw [escapeQuotes_append start (by decide), Text.cut_append, Text.cut_append, List.map_append,
        ih start.length (by omega) start rfl, ih rest.length (by omega) rest rfl]
    · have hescaped : '\n' ∉ escapeQuotes cs := by rwa [mem_escapeQuotes cs (by decide)]
      rw [Text.cut_eq_self hmem, Text.cut_eq_self hescaped, List.map_singleton]

theorem dropReturn_escapeQuotes (line : List Char) :
    Text.dropReturn (escapeQuotes line) = escapeQuotes (Text.dropReturn line) := by
  rw [Text.dropReturn, Text.dropReturn, getLast?_escapeQuotes]
  split
  · rename_i hreturn
    obtain ⟨start, rfl⟩ := List.getLast?_eq_some_iff.1 hreturn
    rw [escapeQuotes_append start (by decide), escapeQuotes_nil, List.dropLast_concat,
      List.dropLast_concat]
  · rfl

/-- Escaping quotes neither makes lines nor joins any. -/
theorem lines_escapeQuotes (s : String) :
    (Text.lines (String.ofList (escapeQuotes s.toList))).map String.toList =
      (Text.lines s).map fun line => escapeQuotes line.toList := by
  have hlast : ((Text.cut '\n' s.toList).map escapeQuotes).getLastD [] =
      escapeQuotes ((Text.cut '\n' s.toList).getLastD []) := by
    rw [List.getLastD_eq_getLast?, List.getLastD_eq_getLast?, List.getLast?_map]
    cases (Text.cut '\n' s.toList).getLast? <;> rfl
  rw [Text.lines_eq, Text.lines_eq, String.toList_ofList, cut_escapeQuotes, hlast,
    isEmpty_escapeQuotes, ← List.map_dropLast]
  simp only [List.map_map, List.map_append, Function.comp_def, String.toList_ofList,
    dropReturn_escapeQuotes]
  split <;> simp

/-! ### Reading block strings -/

/-- What is read after a start that belongs to the text. -/
def readAfter (start : List Char) (read : Option (List Char × List Char)) :
    Option (List Char × List Char) :=
  read.map fun (text, rest) => (start ++ text, rest)

@[simp] theorem readAfter_nil (read : Option (List Char × List Char)) : readAfter [] read = read :=
  Option.map_id'

theorem readAfter_readAfter (start next : List Char) (read : Option (List Char × List Char)) :
    readAfter start (readAfter next read) = readAfter (start ++ next) read := by
  cases read with
  | none => rfl
  | some read => simp [readAfter]

/-- The text of a block string after its opening quotes, and what follows its closing quotes. Three
quotes after a backslash are quotes of the text, and any other three close it. -/
def blockText? : List Char → Option (List Char × List Char)
  | '\\' :: '"' :: '"' :: '"' :: cs => readAfter quotes (blockText? cs)
  | '"' :: '"' :: '"' :: cs => some ([], cs)
  | c :: cs => readAfter [c] (blockText? cs)
  | [] => none

def blockString? (cs : List Char) : Option (List Char × List Char) :=
  match Graphql.skip cs with
  | '"' :: '"' :: '"' :: cs => blockText? cs
  | _ => none

theorem blockText?_escaped (cs : List Char) :
    blockText? ('\\' :: '"' :: '"' :: '"' :: cs) = readAfter quotes (blockText? cs) := rfl

theorem blockText?_cons (hclosing : ¬ quotes <+: c :: cs)
    (hescaped : ¬ '\\' :: quotes <+: c :: cs) :
    blockText? (c :: cs) = readAfter [c] (blockText? cs) := by
  rw [blockText?]
  · rintro rest rfl rfl
    exact hescaped ⟨rest, rfl⟩
  · rintro rest rfl rfl
    exact hclosing ⟨rest, rfl⟩

theorem blockText?_append {start : List Char} (hstart : ∀ c ∈ start, c ∉ '\\' :: quotes)
    (cs : List Char) : blockText? (start ++ cs) = readAfter start (blockText? cs) := by
  induction start with
  | nil => rw [List.nil_append, readAfter_nil]
  | cons c start ih =>
    obtain ⟨hc, hstart⟩ := List.forall_mem_cons.1 hstart
    have hfirst : ∀ d part, d ∈ '\\' :: quotes → ¬ d :: part <+: c :: (start ++ cs) := by
      intro d part hd hprefix
      rw [(List.cons_prefix_cons.1 hprefix).1] at hd
      exact hc hd
    have hclosing := hfirst '"' ['"', '"'] (by decide)
    have hescaped := hfirst '\\' quotes (by decide)
    rw [List.cons_append, blockText?_cons hclosing hescaped, ih hstart, readAfter_readAfter,
      List.singleton_append]

/-- Escaped quotes are read as the quotes they stand for, up to what is no quote. -/
theorem blockText?_escapeQuotes (cs : List Char) (hc : c ∉ quotes) (rest : List Char) :
    blockText? (escapeQuotes cs ++ c :: rest) = readAfter cs (blockText? (c :: rest)) := by
  induction cs using induction_quotes with
  | nil => rw [escapeQuotes_nil, List.nil_append, readAfter_nil]
  | quotes cs ih =>
    simp only [escapeQuotes_quotes, List.cons_append, blockText?_escaped, ih, readAfter_readAfter]
    rfl
  | cons d cs hfirst ih =>
    have hplain := escapeQuotes_cons hfirst
    -- what is escaped never begins with three quotes, so a backslash of the text escapes nothing
    have hclosing : ¬ quotes <+: d :: (escapeQuotes cs ++ c :: rest) := by
      rw [← List.cons_append, ← hplain, prefix_append_cons_iff hc]
      exact not_quotes_prefix_escapeQuotes _
    have hescaped : ¬ '\\' :: quotes <+: d :: (escapeQuotes cs ++ c :: rest) := by
      rw [List.cons_prefix_cons, prefix_append_cons_iff hc]
      exact fun h => not_quotes_prefix_escapeQuotes _ h.2
    rw [hplain, List.cons_append, blockText?_cons hclosing hescaped, ih, readAfter_readAfter,
      List.singleton_append]

/-! ### Descriptions -/

/-- A line after the indent; no indent makes an empty one longer. -/
def indented (indent line : List Char) : List Char :=
  if line.isEmpty then [] else indent ++ line

/-- Lines of which each is ended by a line feed. -/
def ended (lines : List (List Char)) : List Char := lines.flatMap (· ++ ['\n'])

/-- The lines of a text without their first characters, as many as indent them. -/
def outdent (n : Nat) (cs : List Char) : List Char :=
  ['\n'].intercalate ((Text.cut '\n' cs).map (·.drop n))

variable {indent line : List Char} {text : String} {n : Nat}

theorem ended_eq_intercalate {lines : List (List Char)} (h : lines ≠ []) :
    ended lines = ['\n'].intercalate lines ++ ['\n'] := by
  induction lines with
  | nil => exact absurd rfl h
  | cons line lines ih =>
    cases lines with
    | nil => simp [ended]
    | cons next lines =>
      rw [List.intercalate_cons_cons, List.append_assoc, ← ih nofun]
      simp [ended]

theorem drop_indented (h : indent.length = n) : (indented indent line).drop n = line := by
  rw [indented]
  split
  · rename_i hempty
    rw [List.isEmpty_iff.1 hempty, List.drop_nil]
  · exact List.drop_left' h

theorem not_mem_indented (hindent : c ∉ indent) (hline : c ∉ line) :
    c ∉ indented indent line := by
  rw [indented]
  split
  · exact List.not_mem_nil
  · rw [List.mem_append, not_or]
    exact ⟨hindent, hline⟩

theorem blockText?_indented (hindent : ∀ c ∈ indent, c ∉ '\\' :: quotes) (hc : c ∉ quotes)
    (rest : List Char) : blockText? (indented indent (escapeQuotes line) ++ c :: rest) =
      readAfter (indented indent line) (blockText? (c :: rest)) := by
  rw [indented, indented, isEmpty_escapeQuotes]
  split
  · rw [List.nil_append, readAfter_nil]
  · rw [List.append_assoc, blockText?_append hindent, blockText?_escapeQuotes line hc,
      readAfter_readAfter]

theorem blockText?_ended (hindent : ∀ c ∈ indent, c ∉ '\\' :: quotes)
    (lines : List (List Char)) (rest : List Char) :
    blockText? (ended (lines.map fun line => indented indent (escapeQuotes line)) ++ rest) =
      readAfter (ended (lines.map (indented indent))) (blockText? rest) := by
  induction lines with
  | nil => rw [List.map_nil, List.map_nil, ended, List.flatMap_nil, List.nil_append, readAfter_nil]
  | cons line lines ih =>
    have hfeed : ∀ c ∈ ['\n'], c ∉ '\\' :: quotes := List.forall_mem_singleton.2 (by decide)
    have hline := blockText?_append hfeed
      (ended (lines.map fun line => indented indent (escapeQuotes line)) ++ rest)
    simp only [ended, List.map_cons, List.flatMap_cons, List.append_assoc] at ih hline ⊢
    rw [List.singleton_append, blockText?_indented hindent (by decide), ← List.singleton_append,
      hline, ih, readAfter_readAfter, readAfter_readAfter, List.append_assoc]

theorem toList_description (h : text ≠ "") (indent : String) :
    (description (some text) indent).toList = indent.toList ++ quotes ++ '\n' ::
      ended ((Text.lines text).map fun line => indented indent.toList (escapeQuotes line.toList)) ++
        indent.toList ++ quotes ++ ['\n'] := by
  have hline : ∀ line : String, (if line.isEmpty then "\n" else indent ++ line ++ "\n").toList =
      indented indent.toList line.toList ++ ['\n'] := by
    intro line
    have hempty : line.toList.isEmpty = line.isEmpty := by
      rw [Bool.eq_iff_iff, List.isEmpty_iff, String.toList_eq_nil_iff, String.isEmpty_iff]
    rw [indented, hempty]
    split
    · rfl
    · simp only [String.toList_append]
      rfl
  have hbody : ∀ lines : List String, (String.join (lines.map fun line =>
      if line.isEmpty then "\n" else indent ++ line ++ "\n")).toList =
        ended ((lines.map String.toList).map (indented indent.toList)) := by
    intro lines
    simp only [String.toList_join, ended, List.flatMap_map, hline]
  rw [description, if_neg (by rwa [String.isEmpty_iff])]
  simp only [String.toList_append, hbody, lines_escapeQuotes, List.map_map, Function.comp_def]
  simp [quotes]

theorem blockString?_append (n : Nat) (cs : List Char) :
    blockString? (List.replicate n ' ' ++ (quotes ++ cs)) = blockText? cs := by
  have hskip : Graphql.skip (List.replicate n ' ' ++ (quotes ++ cs)) = quotes ++ cs := by
    induction n with
    | zero => exact Graphql.skip_eq_self (Graphql.beginsToken_cons (by decide) (by decide) _)
    | succ n ih => rw [List.replicate_succ, List.cons_append, Graphql.skip_cons (by decide), ih]
  rw [blockString?, hskip]
  rfl

/-- The lines of a description as its block string has them. -/
def body (indent : List Char) (text : String) : List Char :=
  ['\n'].intercalate ((Text.lines text).map fun line => indented indent line.toList)

theorem outdent_body (h : text ≠ "") (hlength : indent.length = n) (hindent : '\n' ∉ indent) :
    outdent n (body indent text) = (String.intercalate "\n" (Text.lines text)).toList := by
  have hfree : ∀ line ∈ (Text.lines text).map fun line => indented indent line.toList,
      '\n' ∉ line := by
    intro cs hcs
    obtain ⟨line, hline, rfl⟩ := List.mem_map.1 hcs
    exact not_mem_indented hindent (Text.not_mem_of_mem_lines hline)
  have hlines : (Text.lines text).map (fun line => indented indent line.toList) ≠ [] :=
    List.map_eq_nil_iff.not.2 (Text.lines_ne_nil h)
  rw [outdent, body, Text.cut_intercalate hlines hfree, List.map_map, String.toList_intercalate]
  simp only [Function.comp_def, drop_indented hlength]
  rfl

theorem blockText?_description (h : text ≠ "") (hindent : ∀ c ∈ indent, c ∉ '\\' :: quotes)
    (rest : List Char) :
    blockText? ('\n' :: (ended ((Text.lines text).map fun line =>
        indented indent (escapeQuotes line.toList)) ++ (indent ++ (quotes ++ '\n' :: rest)))) =
      some ('\n' :: body indent text ++ '\n' :: indent, '\n' :: rest) := by
  have hlines : (Text.lines text).map (fun line => indented indent line.toList) ≠ [] :=
    List.map_eq_nil_iff.not.2 (Text.lines_ne_nil h)
  have hbody := ended_eq_intercalate hlines
  have hopening : ∀ c ∈ ['\n'], c ∉ '\\' :: quotes := List.forall_mem_singleton.2 (by decide)
  have hclosing : blockText? (indent ++ (quotes ++ '\n' :: rest)) =
      some (indent, '\n' :: rest) := by
    rw [blockText?_append hindent]
    simp [quotes, blockText?, readAfter]
  have hread := blockText?_ended hindent ((Text.lines text).map String.toList)
    (indent ++ (quotes ++ '\n' :: rest))
  simp only [List.map_map, Function.comp_def, hclosing, hbody] at hread
  rw [← List.singleton_append, blockText?_append hopening, hread]
  simp [readAfter, body]

/-- The block string of a description ends at its last line. Between the line breaks after its first
quotes and before its last ones, without the indent, are the lines of the description. -/
theorem description_readBack (h : text ≠ "") (n : Nat) (rest : List Char) :
    let indent := List.replicate n ' '
    blockString? ((description (some text) (String.ofList indent)).toList ++ rest) =
        some ('\n' :: body indent text ++ '\n' :: indent, '\n' :: rest) ∧
      outdent n (body indent text) = (String.intercalate "\n" (Text.lines text)).toList := by
  intro indent
  have hspace : ∀ c ∈ indent, c = ' ' := fun c hc => List.eq_of_mem_replicate hc
  have hindent : ∀ c ∈ indent, c ∉ '\\' :: quotes := by
    intro c hc
    rw [hspace c hc]
    decide
  have hfeed : '\n' ∉ indent := fun hmem => absurd (hspace _ hmem) (by decide)
  refine ⟨?_, outdent_body h List.length_replicate hfeed⟩
  rw [toList_description h, String.toList_ofList, ← blockText?_description h hindent rest,
    ← blockString?_append n]
  simp only [List.append_assoc, List.cons_append, List.nil_append]
  rfl

end Sdl

/-! Two lines with an empty one between. The quotes of the first are escaped already, and those of
the last would end a block string. -/

namespace Quoted

def text : String := "a \\\"\"\"\r\n\n \"\"\"\"b"

theorem lines_text : Text.lines text = ["a \\\"\"\"", "", " \"\"\"\"b"] := by rfl

theorem body_text : '\n' :: Sdl.body [' ', ' '] text ++ '\n' :: [' ', ' '] =
    "\n  a \\\"\"\"\n\n   \"\"\"\"b\n  ".toList := by
  rfl

end Quoted

theorem description_readBack_of_quoted : Quoted.text ≠ "" ∧
    Sdl.blockString? (Sdl.description (some Quoted.text) "  ").toList =
      some ("\n  a \\\"\"\"\n\n   \"\"\"\"b\n  ".toList, ['\n']) ∧
    Sdl.outdent 2 (Sdl.body [' ', ' '] Quoted.text) =
      "a \\\"\"\"\n\n \"\"\"\"b".toList := by
  have h : Quoted.text ≠ "" := by decide
  obtain ⟨hread, houtdent⟩ := Sdl.description_readBack h 2 []
  rw [List.append_nil] at hread
  refine ⟨h, ?_, ?_⟩
  · rw [← Quoted.body_text]
    exact hread
  · rw [Quoted.lines_text] at houtdent
    exact houtdent

end ODataGraph
