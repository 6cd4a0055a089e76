import Mathlib.Tactic.SplitIfs
import ODataGraph.Graphql.Reader
import ODataGraph.Json.Printer

/-!
Reading tokens where they are printed: names, strings that are escaped as in JSON, and lists of
things that are read one after the other.
-/

namespace ODataGraph.Graphql

/-- What follows does not go on with more of the same kind of characters. -/
def Stops (p : Char → Bool) (rest : List Char) : Prop := ∀ c, rest.head? = some c → p c = false

theorem stops_cons {p : Char → Bool} {c : Char} (h : p c = false) (rest : List Char) :
    Stops p (c :: rest) := by
  rintro _ ⟨⟩
  exact h

theorem takeWhile_append {p : Char → Bool} {cs rest : List Char} (hcs : ∀ c ∈ cs, p c = true)
    (hrest : Stops p rest) : (cs ++ rest).takeWhile p = cs := by
  have hnone : rest.takeWhile p = [] := by
    cases rest with
    | nil => rfl
    | cons c rest => rw [List.takeWhile_cons_of_neg (by rw [hrest c rfl]; decide)]
  rw [List.takeWhile_append_of_pos hcs, hnone, List.append_nil]

theorem dropWhile_append {p : Char → Bool} {cs rest : List Char} (hcs : ∀ c ∈ cs, p c = true)
    (hrest : Stops p rest) : (cs ++ rest).dropWhile p = rest := by
  rw [List.dropWhile_append_of_pos hcs]
  cases rest with
  | nil => rfl
  | cons c rest => rw [List.dropWhile_cons_of_neg (by rw [hrest c rfl]; decide)]

/-! ### What is skipped -/

/-- No blank, comma or comment comes first. -/
def BeginsToken (cs : List Char) : Prop :=
  ∀ c, cs.head? = some c → isIgnored c = false ∧ c ≠ '#'

theorem beginsToken_cons {c : Char} (hignored : isIgnored c = false) (hcomment : c ≠ '#')
    (cs : List Char) : BeginsToken (c :: cs) := by
  rintro _ ⟨⟩
  exact ⟨hignored, hcomment⟩

theorem skip_eq_self {cs : List Char} (h : BeginsToken cs) : skip cs = cs := by
  cases cs with
  | nil => rfl
  | cons c cs =>
    obtain ⟨hignored, hcomment⟩ := h c rfl
    rw [skip, skipFrom, if_neg (by decide), if_neg (by rw [hignored]; decide), if_neg hcomment]

theorem skip_cons {c : Char} (h : isIgnored c = true) (cs : List Char) :
    skip (c :: cs) = skip cs := by
  rw [skip, skipFrom, if_neg (by decide), if_pos h]
  rfl

/-! ### Names -/

theorem isName_iff {name : String} : isName name = true ↔
    ∃ c cs, name.toList = c :: cs ∧ isNameStart c = true ∧ ∀ c ∈ cs, isNameChar c = true := by
  rw [isName]
  constructor
  · intro h
    split at h
    · rename_i c cs hname
      rw [Bool.and_eq_true, List.all_eq_true] at h
      exact ⟨c, cs, hname, h⟩
    · cases h
  · rintro ⟨c, cs, hname, h⟩
    rw [hname]
    exact Bool.and_eq_true _ _ ▸ ⟨h.1, List.all_eq_true.2 h.2⟩

theorem isNameChar_of_isNameStart {c : Char} (h : isNameStart c = true) : isNameChar c = true := by
  rw [isNameChar, h, Bool.true_or]

theorem isNameChar_of_mem_isName {name : String} (h : isName name = true) :
    ∀ c ∈ name.toList, isNameChar c = true := by
  obtain ⟨c, cs, hname, hc, hcs⟩ := isName_iff.1 h
  rw [hname]
  exact List.forall_mem_cons.2 ⟨isNameChar_of_isNameStart hc, hcs⟩

theorem ne_of_isNameChar {c d : Char} (hc : isNameChar c = true) (hd : isNameChar d = false) :
    c ≠ d := by
  rintro rfl
  rw [hd] at hc
  cases hc

theorem beginsToken_of_isNameChar {c : Char} (h : isNameChar c = true) (cs : List Char) :
    BeginsToken (c :: cs) := by
  refine beginsToken_cons ?_ (ne_of_isNameChar h (by decide)) cs
  rw [← Bool.not_eq_true, isIgnored]
  simp only [Bool.or_eq_true, beq_iff_eq, not_or]
  refine ⟨⟨⟨⟨⟨?_, ?_⟩, ?_⟩, ?_⟩, ?_⟩, ?_⟩ <;> exact ne_of_isNameChar h (by decide)

theorem beginsToken_of_isName {name : String} (h : isName name = true) (rest : List Char) :
    BeginsToken (name.toList ++ rest) := by
  obtain ⟨c, cs, hname, hc, _⟩ := isName_iff.1 h
  rw [hname]
  exact beginsToken_of_isNameChar (isNameChar_of_isNameStart hc) _

/-- A name is read to its end. -/
theorem readName_append {name : String} (h : isName name = true) {rest : List Char}
    (hrest : Stops isNameChar rest) : readName (name.toList ++ rest) = some (name, rest) := by
  have hhead : ((name.toList ++ rest).head?.any isNameStart) = true := by
    obtain ⟨c, cs, hname, hc, _⟩ := isName_iff.1 h
    rw [hname]
    exact hc
  have hname := isNameChar_of_mem_isName h
  rw [readName, skip_eq_self (beginsToken_of_isName h rest), readNameHere, if_pos hhead,
    takeWhile_append hname hrest, dropWhile_append hname hrest, String.ofList_toList]

/-! ### Strings -/

namespace Text

/-- A control without a short escape is read from its code. -/
theorem ofCode?_hexDigit {n : Nat} (h : n < 0x20) :
    ofCode? ['0', '0', Json.hexDigit (n / 16), Json.hexDigit (n % 16)] = some (Char.ofNat n) := by
  have hall : ∀ n < 0x20, ofCode? ['0', '0', Json.hexDigit (n / 16), Json.hexDigit (n % 16)] =
      some (Char.ofNat n) := by
    decide
  exact hall n h

theorem readLine_escaped {c d : Char} (hu : c ≠ 'u') (h : Json.escaped? c = some d)
    (cs : List Char) :
    readLine ('\\' :: c :: cs) = (readLine cs).map fun (text, rest) => (d :: text, rest) := by
  rw [readLine.eq_4 _ _ fun _ _ _ _ _ heq _ => hu heq, h]
  cases readLine cs <;> rfl

theorem readLine_escape (c : Char) (cs : List Char) :
    readLine (Json.escape c ++ cs) = (readLine cs).map fun (text, rest) => (c :: text, rest) := by
  rw [Json.escape]
  split_ifs with hquote hline hreturn htab hback hfeed hcontrol
  · rcases hquote with rfl | rfl <;> exact readLine_escaped (by decide) rfl cs
  · exact hline ▸ readLine_escaped (by decide) rfl cs
  · exact hreturn ▸ readLine_escaped (by decide) rfl cs
  · exact htab ▸ readLine_escaped (by decide) rfl cs
  · exact hback ▸ readLine_escaped (by decide) rfl cs
  · exact hfeed ▸ readLine_escaped (by decide) rfl cs
  · simp only [List.cons_append, List.nil_append]
    rw [readLine, ofCode?_hexDigit hcontrol, Char.ofNat_toNat]
    cases readLine cs <;> rfl
  · rw [not_or] at hquote
    have hraw : ¬ (isLineEnd c = true ∨ c = '\\') := by
      simp [isLineEnd, hline, hreturn, hquote]
    rw [List.singleton_append, readLine.eq_5 _ _ hquote.1 (fun _ _ _ _ _ heq _ => hquote.2 heq)
      (fun _ _ heq _ => hquote.2 heq), if_neg hraw]
    cases readLine cs <;> rfl

/-- What JSON escapes in a string is read back, to the quote that ends the string. -/
theorem readLine_quoted (text rest : List Char) :
    readLine (text.flatMap Json.escape ++ '"' :: rest) = some (text, rest) := by
  induction text with
  | nil => rfl
  | cons c text ih =>
    rw [List.flatMap_cons, List.append_assoc, readLine_escape, ih, Option.map_some]

theorem head?_escape_ne (c : Char) (cs : List Char) : (Json.escape c ++ cs).head? ≠ some '"' := by
  rw [Json.escape]
  split_ifs with hquote <;> simp_all

/-- A string of JSON is read as such, unless it is empty and one more quote follows it. -/
theorem read_quoted (s : String) {rest : List Char} (hrest : rest.head? ≠ some '"') :
    read (Json.quoted s ++ rest) = some (s.toList, rest) := by
  have hline := readLine_quoted s.toList rest
  rw [Json.quoted, List.cons_append, List.cons_append, List.append_assoc, List.singleton_append]
  -- three quotes would begin a block
  have hopening : ∀ cs, s.toList.flatMap Json.escape ++ '"' :: rest ≠ '"' :: '"' :: cs := by
    intro cs heq
    cases hs : s.toList with
    | nil =>
      rw [hs, List.flatMap_nil, List.nil_append] at heq
      cases rest with
      | nil => cases heq
      | cons c rest =>
        cases heq
        exact hrest rfl
    | cons c text =>
      rw [hs, List.flatMap_cons, List.append_assoc] at heq
      exact head?_escape_ne c _ (by rw [heq]; rfl)
  rw [read.eq_2 _ hopening, hline]

end Text

/-! ### One after the other -/

/-- Nothing that could belong to the value before it comes first. -/
def Ends (rest : List Char) : Prop :=
  ∀ c, rest.head? = some c → isNameChar c = false ∧ c ≠ '.' ∧ c ≠ '"'

theorem ends_cons {c : Char} (hname : isNameChar c = false) (hpoint : c ≠ '.') (hquote : c ≠ '"')
    (rest : List Char) : Ends (c :: rest) := by
  rintro _ ⟨⟩
  exact ⟨hname, hpoint, hquote⟩

variable {α β : Type} {read : List Char → Option (α × List Char)}

/-- As many as there are can be read one after the other, each of which takes some characters. -/
inductive ReadsAll (read : List Char → Option (α × List Char)) :
    List Char → List α → List Char → Prop
  | nil {cs : List Char} (h : read cs = none) : ReadsAll read cs [] cs
  | cons {cs cs' rest : List Char} {a : α} {as : List α} (h : read cs = some (a, cs'))
      (hlt : cs'.length < cs.length) (hrest : ReadsAll read cs' as rest) :
      ReadsAll read cs (a :: as) rest

namespace ReadsAll

variable {cs cs' rest : List Char} {as : List α}

theorem length_le (h : ReadsAll read cs as rest) : as.length + rest.length ≤ cs.length := by
  induction h with
  | nil => simp
  | cons _ hlt _ ih =>
    rw [List.length_cons]
    omega

theorem readMany_eq (h : ReadsAll read cs as rest) {n : Nat} (hn : as.length ≤ n) :
    readMany read n cs = (as, rest) := by
  induction h generalizing n with
  | nil h =>
    cases n with
    | zero => rfl
    | succ n => rw [readMany, h]
  | cons h _ _ ih =>
    cases n with
    | zero => cases hn
    | succ n =>
      have hothers := ih (Nat.le_of_succ_le_succ hn)
      simp only [readMany, h, hothers]

theorem readBetween_eq {opening closing : Char} (hopening : BeginsToken (opening :: cs))
    (hclosing : BeginsToken (closing :: rest)) (h : ReadsAll read cs as (closing :: rest)) :
    readBetween opening closing read (opening :: cs) = some (as, rest) := by
  have hlength := h.length_le
  have hmany := h.readMany_eq (n := cs.length) (by omega)
  simp [readBetween, skip_eq_self hopening, hmany, skip_eq_self hclosing]

/-- What is skipped before the first of them can be added. -/
theorem of_read_eq (h : ReadsAll read cs as rest) (hne : as ≠ []) (heq : read cs' = read cs)
    (hle : cs.length ≤ cs'.length) : ReadsAll read cs' as rest := by
  cases h with
  | nil => exact absurd rfl hne
  | cons h hlt hrest => exact .cons (heq.trans h) (Nat.lt_of_lt_of_le hlt hle) hrest

end ReadsAll

/-- What is printed with commas and blanks between is read up to what closes it. -/
theorem readsAll_intercalate {emit : β → List Char} {f : β → α} {rest : List Char}
    (hrest : read rest = none) (hends : Ends rest)
    (hskip : ∀ cs, read (',' :: ' ' :: cs) = read cs) (bs : List β)
    (hne : ∀ b ∈ bs, emit b ≠ [])
    (hread : ∀ b ∈ bs, ∀ rest, Ends rest → read (emit b ++ rest) = some (f b, rest)) :
    ReadsAll read ([',', ' '].intercalate (bs.map emit) ++ rest) (bs.map f) rest := by
  induction bs with
  | nil => exact .nil hrest
  | cons b bs ih =>
    have hb := hread b List.mem_cons_self
    have hlength : ∀ rest, rest.length < (emit b ++ rest).length := by
      intro rest
      have := List.length_pos_iff.2 (hne b List.mem_cons_self)
      rw [List.length_append]
      omega
    cases bs with
    | nil =>
      rw [List.map_singleton, List.map_singleton, List.intercalate_singleton]
      exact .cons (hb rest hends) (hlength rest) (.nil hrest)
    | cons b' bs =>
      have hothers := ih (fun c hc => hne c (List.mem_cons_of_mem _ hc))
        fun c hc => hread c (List.mem_cons_of_mem _ hc)
      rw [List.map_cons, List.map_cons, List.map_cons, List.intercalate_cons_cons,
        List.append_assoc, List.append_assoc]
      refine .cons (hb _ ?_) (hlength _) (hothers.of_read_eq nofun (hskip _) ?_)
      · exact ends_cons (by decide) (by decide) (by decide) _
      · exact Nat.le_add_right _ 2

end ODataGraph.Graphql
