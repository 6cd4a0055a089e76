import ODataGraph.Proofs.Graphql.Numeral

/-!
JSON texts by their grammar. What is read of a text is the literal that it is a text of, and nothing
else is read.
-/

namespace ODataGraph.Json

open Numeral (AreDigits pointText)
open Graphql (Stops Ends)

/-- A sign and what it multiplies by. -/
inductive SignText : List Char → Int → Prop
  | none : SignText [] 1
  | plus : SignText ['+'] 1
  | minus : SignText ['-'] (-1)

inductive ExponentText : List Char → Option Int → Prop
  | none : ExponentText [] none
  | some {mark : Char} {sign digits : List Char} {k : Int} (hmark : mark = 'e' ∨ mark = 'E')
      (hsign : SignText sign k) (hdigits : AreDigits digits) (hne : digits ≠ []) :
      ExponentText (mark :: (sign ++ digits)) (some (k * ofDigits (digits.map digitValue)))

/-- A number: digits, with no zero before others, maybe some after a point, and an exponent. -/
inductive NumberText : List Char → NumberLiteral → Prop
  | mk (negative : Bool) {whole fraction text : List Char} {exponent : Option Int}
      (hwhole : AreDigits whole) (hne : whole ≠ []) (hzero : ∀ cs, whole = '0' :: cs → cs = [])
      (hfraction : AreDigits fraction) (hexponent : ExponentText text exponent) :
      NumberText ((if negative then ['-'] else []) ++ (whole ++ (pointText fraction ++ text)))
        ⟨negative, whole.map digitValue, fraction.map digitValue, exponent⟩

/-- What stands between the quotes of a string. -/
inductive UnitsText : List Char → List StringUnit → Prop
  | nil : UnitsText [] []
  | plain {c : Char} {cs : List Char} {units : List StringUnit} (hcontrol : 0x20 ≤ c.toNat)
      (hquote : c ≠ '"') (hback : c ≠ '\\') (h : UnitsText cs units) :
      UnitsText (c :: cs) (.char c :: units)
  | escaped {c d : Char} {cs : List Char} {units : List StringUnit} (hc : escaped? c = some d)
      (h : UnitsText cs units) : UnitsText ('\\' :: c :: cs) (.char d :: units)
  | code {a b c d : Char} {cs : List Char} {units : List StringUnit} {n : Nat}
      (hn : hexCode? [a, b, c, d] = some n) (h : UnitsText cs units) :
      UnitsText ('\\' :: 'u' :: a :: b :: c :: d :: cs) (.unit n :: units)

def IsBlank (cs : List Char) : Prop := ∀ c ∈ cs, isSpace c = true

mutual

inductive LiteralText : List Char → Literal → Prop
  | null : LiteralText ['n', 'u', 'l', 'l'] .null
  | true : LiteralText ['t', 'r', 'u', 'e'] (.bool true)
  | false : LiteralText ['f', 'a', 'l', 's', 'e'] (.bool false)
  | number {cs : List Char} {n : NumberLiteral} (h : NumberText cs n) : LiteralText cs (.number n)
  | string {cs : List Char} {units : List StringUnit} (h : UnitsText cs units) :
      LiteralText ('"' :: (cs ++ ['"'])) (.string units)
  | emptyArray {blank : List Char} (hblank : IsBlank blank) :
      LiteralText ('[' :: (blank ++ [']'])) (.array [])
  | array {cs : List Char} {items : List Literal} (h : ItemsText cs items) :
      LiteralText ('[' :: (cs ++ [']'])) (.array items)
  | emptyObject {blank : List Char} (hblank : IsBlank blank) :
      LiteralText ('\x7b' :: (blank ++ ['\x7d'])) (.object [])
  | object {cs : List Char} {members : List (List StringUnit × Literal)}
      (h : MembersText cs members) : LiteralText ('\x7b' :: (cs ++ ['\x7d'])) (.object members)

/-- A literal and blanks around it. -/
inductive SpacedText : List Char → Literal → Prop
  | mk {before cs after : List Char} {l : Literal} (hbefore : IsBlank before)
      (h : LiteralText cs l) (hafter : IsBlank after) : SpacedText (before ++ (cs ++ after)) l

inductive ItemsText : List Char → List Literal → Prop
  | single {cs : List Char} {l : Literal} (h : SpacedText cs l) : ItemsText cs [l]
  | cons {cs rest : List Char} {l : Literal} {items : List Literal} (h : SpacedText cs l)
      (hrest : ItemsText rest items) : ItemsText (cs ++ ',' :: rest) (l :: items)

inductive MemberText : List Char → List StringUnit × Literal → Prop
  | mk {before name after cs : List Char} {units : List StringUnit} {value : Literal}
      (hbefore : IsBlank before) (hname : UnitsText name units) (hafter : IsBlank after)
      (h : SpacedText cs value) :
      MemberText (before ++ '"' :: (name ++ '"' :: (after ++ ':' :: cs))) (units, value)

inductive MembersText : List Char → List (List StringUnit × Literal) → Prop
  | single {cs : List Char} {m : List StringUnit × Literal} (h : MemberText cs m) :
      MembersText cs [m]
  | cons {cs rest : List Char} {m : List StringUnit × Literal}
      {members : List (List StringUnit × Literal)} (h : MemberText cs m)
      (hrest : MembersText rest members) : MembersText (cs ++ ',' :: rest) (m :: members)

end

/-! ### Blanks -/

section Blanks

variable {cs rest : List Char} {c : Char}

theorem isBlank_nil : IsBlank [] := nofun

theorem skipSpace_append {blank : List Char} (h : IsBlank blank) (cs : List Char) :
    skipSpace (blank ++ cs) = skipSpace cs :=
  List.dropWhile_append_of_pos h

theorem skipSpace_cons (h : isSpace c = false) (cs : List Char) : skipSpace (c :: cs) = c :: cs :=
  List.dropWhile_cons_of_neg (by rw [h]; decide)

theorem spacedText_of_literalText {l : Literal} (h : LiteralText cs l) : SpacedText cs l := by
  have hspaced := SpacedText.mk isBlank_nil h isBlank_nil
  rwa [List.nil_append, List.append_nil] at hspaced

/-- A text begins with blanks, and they are skipped. -/
theorem exists_blank (cs : List Char) : ∃ blank, IsBlank blank ∧ cs = blank ++ skipSpace cs :=
  ⟨cs.takeWhile isSpace, List.all_eq_true.1 List.all_takeWhile,
    List.takeWhile_append_dropWhile.symm⟩

end Blanks

/-! ### Numbers -/

section Numbers

variable {cs rest : List Char}

theorem exists_digits_of_readDigits {ds : List Nat} (h : readDigits cs = (ds, rest)) :
    ∃ digits, AreDigits digits ∧ ds = digits.map digitValue ∧ cs = digits ++ rest := by
  cases h
  exact ⟨cs.takeWhile Char.isDigit, List.all_eq_true.1 List.all_takeWhile, rfl,
    List.takeWhile_append_dropWhile.symm⟩

theorem eq_zero_of_digitValue_eq {c : Char} (hc : c.isDigit = true) (h : digitValue c = 0) :
    c = '0' := by
  rw [Char.isDigit, Bool.and_eq_true, decide_eq_true_eq, ge_iff_le, UInt32.le_iff_toNat_le] at hc
  have hlow : 48 ≤ c.toNat := hc.1
  rw [digitValue] at h
  have heq : c.toNat = ('0' : Char).toNat := by
    rw [show ('0' : Char).toNat = 48 from rfl]
    omega
  exact Char.toNat_inj.1 heq

theorem exists_whole_of_readWhole {ds : List Nat} (h : readWhole cs = some (ds, rest)) :
    ∃ whole, AreDigits whole ∧ whole ≠ [] ∧ (∀ cs, whole = '0' :: cs → cs = []) ∧
      ds = whole.map digitValue ∧ cs = whole ++ rest := by
  rw [readWhole] at h
  cases hread : readDigits cs with
  | mk ds' rest' =>
    obtain ⟨whole, hwhole, rfl, rfl⟩ := exists_digits_of_readDigits hread
    rw [hread] at h
    dsimp only at h
    split at h
    · cases h
    · cases h
    · rename_i hempty hzero
      cases h
      refine ⟨whole, hwhole, fun heq => hempty (by rw [heq]; rfl), ?_, rfl, rfl⟩
      rintro cs rfl
      cases cs with
      | nil => rfl
      | cons c cs => exact absurd rfl (hzero _ _)

theorem readWhole_append {whole : List Char} (hwhole : AreDigits whole) (hne : whole ≠ [])
    (hzero : ∀ cs, whole = '0' :: cs → cs = []) (hrest : Stops Char.isDigit rest) :
    readWhole (whole ++ rest) = some (whole.map digitValue, rest) := by
  rw [readWhole, Graphql.readDigits_append hwhole hrest]
  dsimp only
  split
  · rename_i heq
    exact absurd (List.map_eq_nil_iff.1 heq) hne
  · rename_i heq
    obtain ⟨c, cs, rfl, hc, hcs⟩ := List.map_eq_cons_iff.1 heq
    have hdigit := hwhole c List.mem_cons_self
    rw [hzero cs (by rw [eq_zero_of_digitValue_eq hdigit hc])] at hcs
    cases hcs
  · rfl

theorem exists_fraction_of_readFraction {ds : List Nat} (h : readFraction cs = some (ds, rest)) :
    ∃ fraction, AreDigits fraction ∧ ds = fraction.map digitValue ∧
      cs = pointText fraction ++ rest := by
  rw [readFraction.eq_def] at h
  split at h
  · rename_i cs
    cases hread : readDigits cs with
    | mk ds' rest' =>
      obtain ⟨fraction, hfraction, rfl, rfl⟩ := exists_digits_of_readDigits hread
      rw [hread] at h
      dsimp only at h
      split at h
      · cases h
      · rename_i hempty
        cases h
        refine ⟨fraction, hfraction, rfl, ?_⟩
        cases fraction with
        | nil => exact absurd rfl hempty
        | cons c fraction => rfl
  · cases h
    exact ⟨[], nofun, rfl, rfl⟩

theorem exists_exponent_of_readDigits {mark : Char} {sign : List Char} {k : Int}
    {exponent : Option Int} (hmark : mark = 'e' ∨ mark = 'E') (hsign : SignText sign k)
    (h : (match readDigits cs with
      | (ds, rest) => if ds.isEmpty then none else some (some (k * ofDigits ds), rest)) =
        some (exponent, rest)) :
    ∃ text, ExponentText text exponent ∧ mark :: (sign ++ cs) = text ++ rest := by
  cases hread : readDigits cs with
  | mk ds rest' =>
    obtain ⟨digits, hdigits, rfl, rfl⟩ := exists_digits_of_readDigits hread
    rw [hread] at h
    dsimp only at h
    split at h
    · cases h
    · rename_i hempty
      cases h
      have hne : digits ≠ [] := by
        rintro rfl
        exact hempty rfl
      exact ⟨_, .some hmark hsign hdigits hne, by simp⟩

theorem exists_exponent_of_readExponent {exponent : Option Int}
    (h : readExponent cs = some (exponent, rest)) :
    ∃ text, ExponentText text exponent ∧ cs = text ++ rest := by
  rw [readExponent.eq_def] at h
  split at h
  · split at h
    · rename_i hmark
      dsimp only at h
      split at h
      · exact exists_exponent_of_readDigits hmark .plus h
      · exact exists_exponent_of_readDigits hmark .minus h
      · exact exists_exponent_of_readDigits hmark .none h
    · cases h
      exact ⟨[], .none, rfl⟩
  · cases h
    exact ⟨[], .none, rfl⟩

theorem digits_append_ne {digits : List Char} (hdigits : AreDigits digits) (hne : digits ≠ [])
    (rest : List Char) {c : Char} (hc : c.isDigit = false) (cs : List Char) :
    digits ++ rest ≠ c :: cs := by
  intro heq
  obtain ⟨d, digits, rfl⟩ := List.exists_cons_of_ne_nil hne
  rw [← (List.cons.inj heq).1, hdigits d List.mem_cons_self] at hc
  cases hc

theorem readExponent_append {text : List Char} {exponent : Option Int}
    (h : ExponentText text exponent) (hrest : Ends rest) :
    readExponent (text ++ rest) = some (exponent, rest) := by
  cases h with
  | none => exact @Graphql.readExponent_append none _ nofun hrest
  | @some mark sign digits k hmark hsign hdigits hne =>
    have hread := Graphql.readDigits_append hdigits hrest.stops_isDigit
    cases hsign with
    | plus => simp [readExponent, hmark, hread, hne]
    | minus => simp [readExponent, hmark, hread, hne]
    | none =>
      -- `simp` finds these two in the context, where it has to show that no sign is read
      have hplus : ∀ cs, digits ++ rest ≠ '+' :: cs := digits_append_ne hdigits hne rest (by decide)
      have hminus : ∀ cs, digits ++ rest ≠ '-' :: cs :=
        digits_append_ne hdigits hne rest (by decide)
      simp [readExponent, hmark, hread, hne]

theorem stops_exponent {text : List Char} {exponent : Option Int}
    (h : ExponentText text exponent) (hrest : Ends rest) :
    Stops Char.isDigit (text ++ rest) ∧ (text ++ rest).head? ≠ some '.' := by
  cases h with
  | none => exact ⟨hrest.stops_isDigit, fun hpoint => (hrest _ hpoint).2.1 rfl⟩
  | some hmark =>
    rcases hmark with rfl | rfl <;> exact ⟨Graphql.stops_cons (by decide) _, nofun⟩

/-- What is read of a number after its sign. -/
def readUnsigned (negative : Bool) (cs : List Char) : Option (NumberLiteral × List Char) := do
  let (whole, cs) ← readWhole cs
  let (fraction, cs) ← readFraction cs
  let (exponent, cs) ← readExponent cs
  return (⟨negative, whole, fraction, exponent⟩, cs)

theorem readNumber_minus (cs : List Char) : readNumber ('-' :: cs) = readUnsigned true cs :=
  rfl

theorem readNumber_unsigned (h : ∀ rest, cs ≠ '-' :: rest) :
    readNumber cs = readUnsigned false cs :=
  readNumber.eq_2 cs h

theorem exists_text_of_readUnsigned {negative : Bool} {n : NumberLiteral}
    (h : readUnsigned negative cs = some (n, rest)) :
    ∃ text, NumberText ((if negative then ['-'] else []) ++ text) n ∧ cs = text ++ rest := by
  simp only [readUnsigned, Option.bind_eq_bind, Option.bind_eq_some_iff] at h
  obtain ⟨⟨whole, cs₁⟩, hwhole, ⟨fraction, cs₂⟩, hfraction, ⟨exponent, cs₃⟩, hexponent, h⟩ := h
  cases h
  obtain ⟨whole, hdigits, hne, hzero, rfl, rfl⟩ := exists_whole_of_readWhole hwhole
  obtain ⟨fraction, hpoint, rfl, rfl⟩ := exists_fraction_of_readFraction hfraction
  obtain ⟨text, hmark, rfl⟩ := exists_exponent_of_readExponent hexponent
  refine ⟨_, .mk negative hdigits hne hzero hpoint hmark, ?_⟩
  simp only [List.append_assoc]

theorem exists_text_of_readNumber {n : NumberLiteral} (h : readNumber cs = some (n, rest)) :
    ∃ text, NumberText text n ∧ cs = text ++ rest := by
  by_cases hminus : ∃ tail, cs = '-' :: tail
  · obtain ⟨tail, rfl⟩ := hminus
    obtain ⟨text, htext, rfl⟩ := exists_text_of_readUnsigned (readNumber_minus tail ▸ h)
    exact ⟨_, htext, rfl⟩
  · rw [readNumber_unsigned (not_exists.1 hminus)] at h
    obtain ⟨text, htext, rfl⟩ := exists_text_of_readUnsigned h
    exact ⟨_, htext, rfl⟩

theorem readNumber_append {text : List Char} {n : NumberLiteral} (h : NumberText text n)
    (hrest : Ends rest) : readNumber (text ++ rest) = some (n, rest) := by
  obtain ⟨negative, hdigits, hne, hzero, hfraction, hexponent⟩ := h
  rename_i whole fraction text exponent
  obtain ⟨hstops, hpoint⟩ := stops_exponent hexponent hrest
  have hstops' : Stops Char.isDigit (pointText fraction ++ (text ++ rest)) :=
    Graphql.stops_pointText hstops
  have hwhole := readWhole_append hdigits hne hzero hstops'
  have hfraction := Graphql.readFraction_append hfraction hstops hpoint
  have hexponent := readExponent_append hexponent hrest
  have hminus : ∀ cs, whole ++ (pointText fraction ++ (text ++ rest)) ≠ '-' :: cs :=
    digits_append_ne hdigits hne _ (by decide)
  have hread : ∀ negative, readUnsigned negative
      (whole ++ (pointText fraction ++ (text ++ rest))) =
        some (⟨negative, whole.map digitValue, fraction.map digitValue, exponent⟩, rest) := by
    intro negative
    simp [readUnsigned, hwhole, hfraction, hexponent]
  simp only [List.append_assoc]
  cases negative with
  | true =>
    rw [if_pos rfl, List.singleton_append, readNumber_minus]
    exact hread true
  | false =>
    rw [if_neg (by decide), List.nil_append, readNumber_unsigned hminus]
    exact hread false

end Numbers

/-! ### Strings -/

section Strings

variable {cs rest : List Char} {units : List StringUnit}

theorem exists_text_of_readString (h : readString cs = some (units, rest)) :
    ∃ text, UnitsText text units ∧ cs = text ++ '"' :: rest := by
  induction cs using readString.induct generalizing units with
  | case1 => cases h
  | case2 cs =>
    cases h
    exact ⟨[], .nil, rfl⟩
  | case3 a b c d cs ih =>
    simp only [readString, Option.bind_eq_bind, Option.bind_eq_some_iff] at h
    obtain ⟨n, hn, ⟨units, rest⟩, hread, h⟩ := h
    cases h
    obtain ⟨text, htext, rfl⟩ := ih hread
    exact ⟨_, .code hn htext, rfl⟩
  | case4 c cs hcode ih =>
    simp only [readString.eq_4 _ _ hcode, Option.bind_eq_bind, Option.bind_eq_some_iff] at h
    obtain ⟨d, hd, ⟨units, rest⟩, hread, h⟩ := h
    cases h
    obtain ⟨text, htext, rfl⟩ := ih hread
    exact ⟨_, .escaped hd htext, rfl⟩
  | case5 c cs hquote hcode hback hbad =>
    rw [readString.eq_5 _ _ hquote hcode hback, if_pos hbad] at h
    cases h
  | case6 c cs hquote hcode hback hgood ih =>
    rw [readString.eq_5 _ _ hquote hcode hback, if_neg hgood] at h
    simp only [Option.bind_eq_bind, Option.bind_eq_some_iff] at h
    obtain ⟨⟨units, rest⟩, hread, h⟩ := h
    cases h
    obtain ⟨text, htext, rfl⟩ := ih hread
    rw [not_or, Nat.not_lt] at hgood
    exact ⟨_, .plain hgood.1 hquote hgood.2 htext, rfl⟩

/-- A text with nothing to escape is written as it is. -/
theorem unitsText_map_char (h : ∀ c ∈ cs, 0x20 ≤ c.toNat ∧ c ≠ '"' ∧ c ≠ '\\') :
    UnitsText cs (cs.map .char) := by
  induction cs with
  | nil => exact .nil
  | cons c cs ih =>
    obtain ⟨⟨hcontrol, hquote, hback⟩, hcs⟩ := List.forall_mem_cons.1 h
    exact .plain hcontrol hquote hback (ih hcs)

theorem readString_append {text : List Char} (h : UnitsText text units) (rest : List Char) :
    readString (text ++ '"' :: rest) = some (units, rest) := by
  induction h with
  | nil => rfl
  | plain hcontrol hquote hback _ ih =>
    rw [List.cons_append, readString.eq_5 _ _ hquote (fun _ _ _ _ _ heq _ => hback heq)
      (fun _ _ heq _ => hback heq), if_neg (not_or.2 ⟨Nat.not_lt.2 hcontrol, hback⟩), ih]
    rfl
  | @escaped c d cs units hc _ ih =>
    have hcode : c ≠ 'u' := by
      rintro rfl
      cases hc
    rw [List.cons_append, List.cons_append,
      readString.eq_4 _ _ (fun _ _ _ _ _ heq _ => hcode heq), hc, ih]
    rfl
  | code hn _ ih =>
    simp only [List.cons_append, readString, hn, ih]
    rfl

end Strings

/-! ### Literals -/

mutual

theorem exists_text_of_readLiteral {fuel : Nat} {cs rest : List Char} {l : Literal}
    (h : readLiteral fuel cs = some (l, rest)) :
    ∃ before text, IsBlank before ∧ LiteralText text l ∧ cs = before ++ (text ++ rest) := by
  cases fuel with
  | zero => cases h
  | succ fuel =>
    obtain ⟨before, hbefore, hcs⟩ := exists_blank cs
    suffices htext : ∃ text, LiteralText text l ∧ skipSpace cs = text ++ rest by
      obtain ⟨text, htext, heq⟩ := htext
      exact ⟨before, text, hbefore, htext, heq ▸ hcs⟩
    rw [readLiteral] at h
    split at h
    case h_1 =>
      cases h
      exact ⟨_, .null, by assumption⟩
    case h_2 =>
      cases h
      exact ⟨_, .true, by assumption⟩
    case h_3 =>
      cases h
      exact ⟨_, .false, by assumption⟩
    case h_4 cs' heq =>
      obtain ⟨⟨units, rest⟩, hread, hl⟩ := Option.map_eq_some_iff.1 h
      cases hl
      obtain ⟨text, htext, rfl⟩ := exists_text_of_readString hread
      exact ⟨_, .string htext, by rw [heq]; simp⟩
    case h_5 cs' heq =>
      split at h
      case h_1 tail hclosing =>
        cases h
        obtain ⟨blank, hblank, hcs'⟩ := exists_blank cs'
        exact ⟨_, .emptyArray hblank, by rw [heq, hcs', hclosing]; simp⟩
      case h_2 =>
        obtain ⟨⟨items, rest⟩, hread, hl⟩ := Option.map_eq_some_iff.1 h
        cases hl
        obtain ⟨text, htext, rfl⟩ := exists_text_of_readItems hread
        exact ⟨_, .array htext, by rw [heq]; simp⟩
    case h_6 cs' heq =>
      split at h
      case h_1 tail hclosing =>
        cases h
        obtain ⟨blank, hblank, hcs'⟩ := exists_blank cs'
        exact ⟨_, .emptyObject hblank, by rw [heq, hcs', hclosing]; simp⟩
      case h_2 =>
        obtain ⟨⟨members, rest⟩, hread, hl⟩ := Option.map_eq_some_iff.1 h
        cases hl
        obtain ⟨text, htext, rfl⟩ := exists_text_of_readMembers hread
        exact ⟨_, .object htext, by rw [heq]; simp⟩
    case h_7 =>
      obtain ⟨⟨n, rest⟩, hread, hl⟩ := Option.map_eq_some_iff.1 h
      cases hl
      obtain ⟨text, htext, heq⟩ := exists_text_of_readNumber hread
      exact ⟨_, .number htext, heq⟩

theorem exists_text_of_readItems {fuel : Nat} {cs rest : List Char} {items : List Literal}
    (h : readItems fuel cs = some (items, rest)) :
    ∃ text, ItemsText text items ∧ cs = text ++ ']' :: rest := by
  cases fuel with
  | zero => cases h
  | succ fuel =>
    simp only [readItems, Option.bind_eq_bind, Option.bind_eq_some_iff] at h
    obtain ⟨⟨item, cs'⟩, hitem, h⟩ := h
    obtain ⟨before, text, hbefore, htext, rfl⟩ := exists_text_of_readLiteral hitem
    obtain ⟨after, hafter, hcs'⟩ := exists_blank cs'
    have hspaced := SpacedText.mk hbefore htext hafter
    dsimp only at h
    split at h
    case h_1 tail heq =>
      cases h
      exact ⟨_, .single hspaced, by rw [hcs', heq]; simp⟩
    case h_2 tail heq =>
      obtain ⟨⟨items, rest⟩, hread, h⟩ := Option.bind_eq_some_iff.1 h
      cases h
      obtain ⟨others, hothers, rfl⟩ := exists_text_of_readItems hread
      exact ⟨_, .cons hspaced hothers, by rw [hcs', heq]; simp⟩
    case h_3 => cases h

theorem exists_text_of_readMembers {fuel : Nat} {cs rest : List Char}
    {members : List (List StringUnit × Literal)}
    (h : readMembers fuel cs = some (members, rest)) :
    ∃ text, MembersText text members ∧ cs = text ++ '\x7d' :: rest := by
  cases fuel with
  | zero => cases h
  | succ fuel =>
    obtain ⟨before, hbefore, hcs⟩ := exists_blank cs
    rw [readMembers] at h
    split at h
    case h_2 => cases h
    case h_1 cs₁ hopening =>
      obtain ⟨⟨name, cs₂⟩, hname, hvalue⟩ := Option.bind_eq_some_iff.1 h
      obtain ⟨nameText, hnameText, rfl⟩ := exists_text_of_readString hname
      obtain ⟨after, hafter, hcs₂⟩ := exists_blank cs₂
      dsimp only at hvalue
      split at hvalue
      case h_2 => cases hvalue
      case h_1 cs₃ hcolon =>
        obtain ⟨⟨value, cs₄⟩, hvalue, hothers⟩ := Option.bind_eq_some_iff.1 hvalue
        obtain ⟨start, text, hstart, htext, rfl⟩ := exists_text_of_readLiteral hvalue
        obtain ⟨stop, hstop, hcs₄⟩ := exists_blank cs₄
        have hmember := MemberText.mk hbefore hnameText hafter (.mk hstart htext hstop)
        dsimp only at hothers
        split at hothers
        case h_1 cs₅ hclosing =>
          cases hothers
          refine ⟨_, .single hmember, ?_⟩
          rw [hcs, hopening, hcs₂, hcolon, hcs₄, hclosing]
          simp
        case h_2 cs₅ hcomma =>
          obtain ⟨⟨members, rest⟩, hread, heq⟩ := Option.bind_eq_some_iff.1 hothers
          cases heq
          obtain ⟨others, htexts, rfl⟩ := exists_text_of_readMembers hread
          refine ⟨_, .cons hmember htexts, ?_⟩
          rw [hcs, hopening, hcs₂, hcolon, hcs₄, hcomma]
          simp
        case h_3 => cases hothers

end

section Texts

variable {cs rest text : List Char} {l : Literal} {items : List Literal}
variable {members : List (List StringUnit × Literal)} {c : Char}

theorem ends_append {blank : List Char} (hblank : IsBlank blank) (hrest : Ends rest) :
    Ends (blank ++ rest) := by
  cases blank with
  | nil => exact hrest
  | cons c blank =>
    have hc := hblank c List.mem_cons_self
    simp only [isSpace, Bool.or_eq_true, beq_iff_eq] at hc
    rcases hc with ((rfl | rfl) | rfl) | rfl <;>
      exact Graphql.ends_cons (by decide) (by decide) (by decide) _

theorem exists_cons_of_numberText {n : NumberLiteral} (h : NumberText text n) :
    ∃ c cs, text = c :: cs ∧ (c.isDigit = true ∨ c = '-') := by
  obtain ⟨negative, hwhole, hne, _⟩ := h
  cases negative with
  | true => exact ⟨_, _, rfl, .inr rfl⟩
  | false =>
    obtain ⟨c, whole, rfl⟩ := List.exists_cons_of_ne_nil hne
    exact ⟨_, _, rfl, .inl (hwhole c List.mem_cons_self)⟩

theorem isSpace_eq_false (h : c.isDigit = true ∨ c = '-') : isSpace c = false ∧ c ≠ ']' := by
  rw [← Bool.not_eq_true, isSpace]
  simp only [Bool.or_eq_true, beq_iff_eq]
  rcases h with h | rfl
  · refine ⟨?_, ?_⟩
    · rintro (((rfl | rfl) | rfl) | rfl) <;> cases h
    · rintro rfl
      cases h
  · decide

/-- A literal begins neither with a blank nor with what closes an array. -/
theorem exists_cons_of_literalText (h : LiteralText text l) :
    ∃ c cs, text = c :: cs ∧ isSpace c = false ∧ c ≠ ']' := by
  cases h with
  | number h =>
    obtain ⟨c, cs, rfl, hc⟩ := exists_cons_of_numberText h
    exact ⟨c, cs, rfl, isSpace_eq_false hc⟩
  | _ => exact ⟨_, _, rfl, by decide, by decide⟩

theorem exists_skipSpace_items (h : ItemsText text items) (rest : List Char) :
    ∃ c cs, skipSpace (text ++ rest) = c :: cs ∧ c ≠ ']' := by
  have hspaced : ∀ {cs l}, SpacedText cs l → ∀ rest, ∃ c cs', skipSpace (cs ++ rest) = c :: cs' ∧
      c ≠ ']' := by
    intro cs l h rest
    obtain ⟨hbefore, h, _⟩ := h
    obtain ⟨c, cs, rfl, hspace, hclosing⟩ := exists_cons_of_literalText h
    rw [List.append_assoc, skipSpace_append hbefore]
    exact ⟨c, _, skipSpace_cons hspace _, hclosing⟩
  cases h with
  | single h => exact hspaced h rest
  | cons h _ =>
    rw [List.append_assoc]
    exact hspaced h _

theorem exists_skipSpace_members (h : MembersText text members) (rest : List Char) :
    ∃ cs, skipSpace (text ++ rest) = '"' :: cs := by
  have hmember : ∀ {cs m}, MemberText cs m → ∀ rest,
      ∃ tail, skipSpace (cs ++ rest) = '"' :: tail := by
    intro cs m h rest
    obtain ⟨hbefore, _⟩ := h
    rw [List.append_assoc, skipSpace_append hbefore]
    exact ⟨_, skipSpace_cons (by decide) _⟩
  cases h with
  | single h => exact hmember h rest
  | cons h _ =>
    rw [List.append_assoc]
    exact hmember h _

/-! One step of reading a literal, by its first character. -/

variable {fuel : Nat}

theorem readLiteral_blank {blank : List Char} (h : IsBlank blank) (cs : List Char) :
    readLiteral fuel (blank ++ cs) = readLiteral fuel cs := by
  cases fuel with
  | zero => rfl
  | succ fuel => rw [readLiteral, skipSpace_append h, readLiteral]

theorem readLiteral_number (hc : c.isDigit = true ∨ c = '-') (cs : List Char) :
    readLiteral (fuel + 1) (c :: cs) =
      (readNumber (c :: cs)).map fun (n, rest) => (.number n, rest) := by
  rw [readLiteral, skipSpace_cons (isSpace_eq_false hc).1]
  split
  case h_7 => rfl
  all_goals
    rename_i heq
    cases heq
    exact absurd hc (by decide)

theorem readLiteral_string (cs : List Char) : readLiteral (fuel + 1) ('"' :: cs) =
    (readString cs).map fun (units, rest) => (.string units, rest) :=
  rfl

theorem readLiteral_emptyArray (h : skipSpace cs = ']' :: rest) :
    readLiteral (fuel + 1) ('[' :: cs) = some (.array [], rest) := by
  rw [readLiteral, skipSpace_cons (by decide)]
  simp [h]

theorem readLiteral_array (h : skipSpace cs = c :: rest) (hc : c ≠ ']') :
    readLiteral (fuel + 1) ('[' :: cs) =
      (readItems fuel cs).map fun (items, rest) => (.array items, rest) := by
  rw [readLiteral, skipSpace_cons (by decide)]
  simp [h, hc]

theorem readLiteral_emptyObject (h : skipSpace cs = '\x7d' :: rest) :
    readLiteral (fuel + 1) ('\x7b' :: cs) = some (.object [], rest) := by
  rw [readLiteral, skipSpace_cons (by decide)]
  simp [h]

theorem readLiteral_object (h : skipSpace cs = c :: rest) (hc : c ≠ '\x7d') :
    readLiteral (fuel + 1) ('\x7b' :: cs) =
      (readMembers fuel cs).map fun (members, rest) => (.object members, rest) := by
  rw [readLiteral, skipSpace_cons (by decide)]
  simp [h, hc]

/-- What stands between two blanks is read if it is on its own. -/
theorem readLiteral_spaced (h : SpacedText cs l) (hrest : Ends rest)
    (hread : ∀ text, LiteralText text l → text.length ≤ cs.length → ∀ before rest, IsBlank before →
      Ends rest → readLiteral fuel (before ++ (text ++ rest)) = some (l, rest)) :
    ∃ after, IsBlank after ∧ readLiteral fuel (cs ++ rest) = some (l, after ++ rest) := by
  obtain ⟨hbefore, h, hafter⟩ := h
  refine ⟨_, hafter, ?_⟩
  rw [List.append_assoc, List.append_assoc]
  refine hread _ h ?_ _ _ hbefore (ends_append hafter hrest)
  simp only [List.length_append]
  omega

theorem readLiteral_member {m : List StringUnit × Literal} (h : MemberText cs m)
    (hrest : Ends rest) (hread : ∀ text, LiteralText text m.2 → text.length ≤ cs.length →
      ∀ before rest, IsBlank before → Ends rest →
        readLiteral fuel (before ++ (text ++ rest)) = some (m.2, rest)) :
    ∃ cs₁ cs₂ cs₃ after, skipSpace (cs ++ rest) = '"' :: cs₁ ∧ readString cs₁ = some (m.1, cs₂) ∧
      skipSpace cs₂ = ':' :: cs₃ ∧ IsBlank after ∧
      readLiteral fuel cs₃ = some (m.2, after ++ rest) := by
  obtain ⟨hbefore, hname, hafter, h⟩ := h
  rename_i before name after cs units value
  have hvalue := readLiteral_spaced h hrest fun text htext hle => hread text htext (by
    simp only [List.length_append, List.length_cons]
    omega)
  obtain ⟨blank, hblank, hvalue⟩ := hvalue
  refine ⟨_, _, _, blank, ?_, readString_append hname (after ++ ':' :: (cs ++ rest)), ?_, hblank,
    hvalue⟩
  · rw [List.append_assoc, skipSpace_append hbefore, List.cons_append, skipSpace_cons (by decide)]
    simp
  · rw [skipSpace_append hafter, skipSpace_cons (by decide)]

end Texts

theorem ends_closing {c : Char} (hc : c ∈ [',', ']', '\x7d']) (cs : List Char) :
    Ends (c :: cs) ∧ skipSpace (c :: cs) = c :: cs := by
  simp only [List.mem_cons, List.not_mem_nil, or_false] at hc
  rcases hc with rfl | rfl | rfl <;>
    exact ⟨Graphql.ends_cons (by decide) (by decide) (by decide) _, skipSpace_cons (by decide) _⟩

mutual

theorem readLiteral_append {fuel : Nat} {before text rest : List Char} {l : Literal}
    (hbefore : IsBlank before) (h : LiteralText text l) (hrest : Ends rest)
    (hfuel : 2 * text.length < fuel) :
    readLiteral fuel (before ++ (text ++ rest)) = some (l, rest) := by
  cases fuel with
  | zero => cases hfuel
  | succ fuel =>
    rw [readLiteral_blank hbefore]
    cases h with
    | null => rfl
    | true => rfl
    | false => rfl
    | number h =>
      have hread := readNumber_append h hrest
      obtain ⟨c, cs, rfl, hc⟩ := exists_cons_of_numberText h
      rw [List.cons_append] at hread ⊢
      rw [readLiteral_number hc, hread, Option.map_some]
    | string h =>
      rw [List.cons_append, List.append_assoc, List.singleton_append, readLiteral_string,
        readString_append h, Option.map_some]
    | emptyArray hblank =>
      rw [List.cons_append, List.append_assoc, List.singleton_append, readLiteral_emptyArray]
      rw [skipSpace_append hblank, skipSpace_cons (by decide)]
    | array h =>
      obtain ⟨c, cs, hskip, hc⟩ := exists_skipSpace_items h (']' :: rest)
      rw [List.cons_append, List.append_assoc, List.singleton_append, readLiteral_array hskip hc,
        readItems_append h rest (by simp at hfuel; omega), Option.map_some]
    | emptyObject hblank =>
      rw [List.cons_append, List.append_assoc, List.singleton_append, readLiteral_emptyObject]
      rw [skipSpace_append hblank, skipSpace_cons (by decide)]
    | object h =>
      obtain ⟨cs, hskip⟩ := exists_skipSpace_members h ('\x7d' :: rest)
      rw [List.cons_append, List.append_assoc, List.singleton_append,
        readLiteral_object hskip (by decide), readMembers_append h rest (by simp at hfuel; omega),
        Option.map_some]

theorem readItems_append {fuel : Nat} {text : List Char} {items : List Literal}
    (h : ItemsText text items) (rest : List Char) (hfuel : 2 * text.length + 1 < fuel) :
    readItems fuel (text ++ ']' :: rest) = some (items, rest) := by
  cases fuel with
  | zero => cases hfuel
  | succ fuel =>
    cases h with
    | single h =>
      obtain ⟨hends, hskip⟩ := ends_closing (by decide : ']' ∈ [',', ']', '\x7d']) rest
      obtain ⟨after, hafter, hread⟩ := readLiteral_spaced h hends
        fun text h hle before rest hbefore hrest =>
          readLiteral_append hbefore h hrest (by omega : 2 * text.length < fuel)
      rw [readItems, hread]
      simp [skipSpace_append hafter, hskip]
    | @cons _ others _ _ h hothers =>
      rw [List.length_append, List.length_cons] at hfuel
      obtain ⟨hends, hskip⟩ := ends_closing (by decide : ',' ∈ [',', ']', '\x7d'])
        (others ++ ']' :: rest)
      obtain ⟨after, hafter, hread⟩ := readLiteral_spaced h hends
        fun text h hle before rest hbefore hrest =>
          readLiteral_append hbefore h hrest (by omega : 2 * text.length < fuel)
      have hothers := readItems_append hothers rest (by omega : 2 * others.length + 1 < fuel)
      rw [List.append_assoc, List.cons_append, readItems, hread]
      simp [skipSpace_append hafter, hskip, hothers]

theorem readMembers_append {fuel : Nat} {text : List Char}
    {members : List (List StringUnit × Literal)} (h : MembersText text members) (rest : List Char)
    (hfuel : 2 * text.length + 1 < fuel) :
    readMembers fuel (text ++ '\x7d' :: rest) = some (members, rest) := by
  cases fuel with
  | zero => cases hfuel
  | succ fuel =>
    cases h with
    | single h =>
      obtain ⟨hends, hskip⟩ := ends_closing (by decide : '\x7d' ∈ [',', ']', '\x7d']) rest
      obtain ⟨cs₁, cs₂, cs₃, after, hopening, hname, hcolon, hafter, hread⟩ :=
        readLiteral_member h hends fun text h hle before rest hbefore hrest =>
          readLiteral_append hbefore h hrest (by omega : 2 * text.length < fuel)
      rw [readMembers]
      simp [hopening, hname, hcolon, hread, skipSpace_append hafter, hskip]
    | @cons _ others _ _ h hothers =>
      rw [List.length_append, List.length_cons] at hfuel
      obtain ⟨hends, hskip⟩ := ends_closing (by decide : ',' ∈ [',', ']', '\x7d'])
        (others ++ '\x7d' :: rest)
      obtain ⟨cs₁, cs₂, cs₃, after, hopening, hname, hcolon, hafter, hread⟩ :=
        readLiteral_member h hends fun text h hle before rest hbefore hrest =>
          readLiteral_append hbefore h hrest (by omega : 2 * text.length < fuel)
      have hothers := readMembers_append hothers rest (by omega : 2 * others.length + 1 < fuel)
      rw [List.append_assoc, List.cons_append, readMembers]
      simp [hopening, hname, hcolon, hread, skipSpace_append hafter, hskip, hothers]

end

/-- A text is read as a literal exactly if it is a text of the literal, with blanks around it. -/
theorem Literal.ofText?_eq_some_iff {s : String} {l : Literal} :
    ofText? s = some l ↔ SpacedText s.toList l := by
  simp only [ofText?, Option.bind_eq_bind, Option.bind_eq_some_iff]
  constructor
  · rintro ⟨⟨l, rest⟩, hread, h⟩
    obtain ⟨before, text, hbefore, htext, hs⟩ := exists_text_of_readLiteral hread
    obtain ⟨blank, hblank, hrest⟩ := exists_blank rest
    dsimp only at h
    split at h
    · rename_i hempty
      cases h
      rw [List.isEmpty_iff.1 hempty, List.append_nil] at hrest
      exact hs ▸ .mk hbefore htext (hrest ▸ hblank)
    · cases h
  · intro h
    generalize s.toList = cs at h
    obtain ⟨hbefore, htext, hafter⟩ := h
    rename_i before text after
    have hends : Ends (after ++ []) := ends_append hafter nofun
    have hlength : 2 * text.length < 2 * (before ++ (text ++ after)).length + 1 := by
      simp only [List.length_append]
      omega
    have hskip := skipSpace_append hafter []
    rw [List.append_nil] at hends hskip
    refine ⟨_, readLiteral_append hbefore htext hends hlength, ?_⟩
    rw [hskip]
    rfl

end ODataGraph.Json
