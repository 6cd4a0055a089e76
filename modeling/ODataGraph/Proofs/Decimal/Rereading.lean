import ODataGraph.Proofs.Decimal.Arithmetic
import ODataGraph.Proofs.Graphql.Numeral

/-!
What a number is read as where it is printed. All digits that are printed fit into 64 bits, so that
nothing is lost before the digits are scaled by their power of ten.
-/

namespace ODataGraph

open Nat (ofDigitChars)

/-! ### Digits -/

namespace Json

theorem le_ofDigitChars (cs : List Char) (n : Nat) : n ≤ ofDigitChars 10 cs n := by
  induction cs generalizing n with
  | nil => exact Nat.le_refl n
  | cons c cs ih =>
    rw [Nat.ofDigitChars_cons]
    exact Nat.le_trans (by omega) (ih _)

theorem mul_digitValue (n : Nat) (c : Char) :
    n * 10 + digitValue c = 10 * n + (c.toNat - '0'.toNat) := by
  rw [Nat.mul_comm]
  rfl

theorem foldl_wholeDigit {cs : List Char} {n : Nat} (h : ofDigitChars 10 cs n ≤ maxSignificand) :
    (cs.map digitValue).foldl Scaled.wholeDigit ⟨n, 0, false⟩ =
      ⟨ofDigitChars 10 cs n, 0, false⟩ := by
  induction cs generalizing n with
  | nil => rfl
  | cons c cs ih =>
    rw [Nat.ofDigitChars_cons] at h ⊢
    have hle := Nat.le_trans (le_ofDigitChars cs _) h
    have hstep : Scaled.wholeDigit ⟨n, 0, false⟩ (digitValue c) =
        ⟨10 * n + (c.toNat - '0'.toNat), 0, false⟩ := by
      rw [Scaled.wholeDigit, if_neg, mul_digitValue]
      simpa [mul_digitValue] using hle
    rw [List.map_cons, List.foldl_cons, hstep, ih h]

theorem foldl_fractionDigit {cs : List Char} {n : Nat} {e : Int}
    (h : ofDigitChars 10 cs n ≤ maxSignificand) :
    (cs.map digitValue).foldl Scaled.fractionDigit ⟨n, e, false⟩ =
      ⟨ofDigitChars 10 cs n, e - cs.length, false⟩ := by
  induction cs generalizing n e with
  | nil => simp
  | cons c cs ih =>
    rw [Nat.ofDigitChars_cons] at h ⊢
    have hle := Nat.le_trans (le_ofDigitChars cs _) h
    have hstep : Scaled.fractionDigit ⟨n, e, false⟩ (digitValue c) =
        ⟨10 * n + (c.toNat - '0'.toNat), e - 1, false⟩ := by
      rw [Scaled.fractionDigit, if_neg, mul_digitValue]
      simpa [mul_digitValue] using hle
    rw [List.map_cons, List.foldl_cons, hstep, ih h]
    simp
    omega

theorem ofDigits_map_digitValue (cs : List Char) :
    ofDigits (cs.map digitValue) = ofDigitChars 10 cs 0 := by
  rw [ofDigits, List.foldl_map, Nat.ofDigitChars_eq_foldl]
  simp only [mul_digitValue]

theorem NumberLiteral.value?_of_foldl {l : NumberLiteral} {whole : Nat} {all : Scaled}
    (hwhole : l.whole.foldl Scaled.wholeDigit {} = ⟨whole, 0, false⟩)
    (hall : l.fraction.foldl Scaled.fractionDigit ⟨whole, 0, false⟩ = all)
    (hpoint : l.fraction ≠ [] ∨ l.exponent ≠ none) : l.value? =
      floatOf? l.negative { all with exponent := all.exponent + l.exponent.getD 0 } := by
  have hnot : ¬ (l.fraction.isEmpty = true ∧ l.exponent.isNone = true ∧ (!false) = true) := by
    rintro ⟨hnil, hnone, -⟩
    rcases hpoint with hpoint | hpoint
    · exact hpoint (List.isEmpty_iff.1 hnil)
    · exact hpoint (Option.isNone_iff_eq_none.1 hnone)
  simp only [value?, hwhole, hall]
  rw [if_neg hnot]

end Json

/-- The digits of a number as a single whole number, and the power of ten that it is multiplied
by. -/
def Numeral.decimal (n : Numeral) : Decimal.Shortest where
  digits := ofDigitChars 10 (n.whole ++ n.fraction) 0
  exponent := (n.exponent.elim 0 fun (negative, digits) =>
    (if negative then -1 else 1) * ofDigitChars 10 digits 0) - n.fraction.length

/-- Digits that fit into 64 bits are read without loss. -/
theorem Numeral.value?_literal {n : Numeral} (hfits : n.decimal.digits ≤ Json.maxSignificand)
    (hpoint : n.fraction ≠ [] ∨ n.exponent ≠ none) : n.literal.value? =
      Json.floatOf? n.negative ⟨n.decimal.digits, n.decimal.exponent, false⟩ := by
  have hdigits : n.decimal.digits = ofDigitChars 10 n.fraction (ofDigitChars 10 n.whole 0) :=
    Nat.ofDigitChars_append 0
  rw [hdigits] at hfits ⊢
  have hwhole := Json.foldl_wholeDigit (Nat.le_trans (Json.le_ofDigitChars n.fraction _) hfits)
  have hfraction := Json.foldl_fractionDigit (e := 0) hfits
  have hexponent : n.decimal.exponent = 0 - n.fraction.length + n.literal.exponent.getD 0 := by
    rw [decimal, literal]
    cases n.exponent with
    | none => simp
    | some e =>
      simp only [Option.elim_some, Option.map_some, Option.getD_some, Json.ofDigits_map_digitValue]
      omega
  have hpart : n.literal.fraction ≠ [] ∨ n.literal.exponent ≠ none :=
    hpoint.imp (mt List.map_eq_nil_iff.1) (mt Option.map_eq_none_iff.1)
  rw [Json.NumberLiteral.value?_of_foldl hwhole hfraction hpart, hexponent]
  rfl

/-- Integers within 64 bits are read as they are. -/
theorem Json.Number.reread?_int {i : Int} (hlow : -(2 ^ 63) ≤ i) (hhigh : i < 2 ^ 64) :
    (Number.int i).reread? = some (.int i) := by
  have hdigits : ofDigitChars 10 (Decimal.natText i.natAbs) 0 = i.natAbs :=
    Nat.ofDigitChars_ten_toDigits
  have hmax : maxSignificand = 2 ^ 64 - 1 := rfl
  have hwhole := foldl_wholeDigit (show ofDigitChars 10 (Decimal.natText i.natAbs) 0 ≤ _ by omega)
  rw [hdigits] at hwhole
  have hliteral : (Number.int i).numeral.literal.whole.foldl Scaled.wholeDigit {} =
      ⟨i.natAbs, 0, false⟩ := hwhole
  have hnegative : (Number.int i).numeral.literal.negative = decide (i < 0) := rfl
  rw [reread?_eq, NumberLiteral.value?]
  simp only [hliteral, hnegative]
  rw [if_pos ⟨rfl, rfl, rfl⟩]
  by_cases hi : i < 0
  · rw [if_neg (by simpa using hi), if_pos (by simp only [Nat.pow_eq]; omega)]
    congr 2
    omega
  · rw [if_pos (by simpa using hi)]
    congr 2
    omega

namespace Decimal

/-! ### Decimals as they are printed -/

theorem ofDigitChars_natText (n : Nat) : ofDigitChars 10 (natText n) 0 = n :=
  Nat.ofDigitChars_ten_toDigits

theorem length_natText_pos (n : Nat) : 0 < (natText n).length := Nat.length_toDigits_pos

/-- Zeros that are filled in before the point count as digits, and then so does the one after it. -/
theorem decimal_positionalParts (negative : Bool) (d : Shortest) :
    (positionalParts negative (natText d.digits)
        (d.exponent + (natText d.digits).length - 1)).decimal = d ∨
      ∃ e : Nat, d.exponent = e ∧ (positionalParts negative (natText d.digits)
        (d.exponent + (natText d.digits).length - 1)).decimal = ⟨d.digits * 10 ^ (e + 1), -1⟩ := by
  have hdigits := ofDigitChars_natText d.digits
  have hpos := length_natText_pos d.digits
  obtain ⟨n, exponent⟩ := d
  dsimp only at hdigits hpos ⊢
  generalize natText n = digits at *
  rw [positionalParts]
  split
  · refine .inl (Shortest.mk.injEq .. ▸ ⟨?_, ?_⟩)
    · simp [zeros, Nat.ofDigitChars_append, Nat.ofDigitChars_replicate_zero,
        Nat.ofDigitChars_cons, hdigits]
    · simp only [zeros, Option.elim_none, List.length_append, List.length_replicate]
      omega
  · split
    · obtain ⟨e, he⟩ := Int.eq_ofNat_of_zero_le (show 0 ≤ exponent by omega)
      have hzeros : (exponent + digits.length - 1).toNat + 1 - digits.length = e := by omega
      refine .inr ⟨e, he, Shortest.mk.injEq .. ▸ ⟨?_, rfl⟩⟩
      rw [hzeros, Nat.ofDigitChars_append, Nat.ofDigitChars_append, hdigits, zeros,
        Nat.ofDigitChars_replicate_zero, Nat.pow_succ, ← Nat.mul_assoc, Nat.mul_comm n]
      exact Nat.mul_comm 10 _
    · refine .inl (Shortest.mk.injEq .. ▸ ⟨?_, ?_⟩)
      · rw [List.take_append_drop, hdigits]
      · simp only [Option.elim_none, List.length_drop]
        omega

theorem decimal_scientificParts (negative : Bool) (d : Shortest) :
    (scientificParts negative (natText d.digits)
      (d.exponent + (natText d.digits).length - 1)).decimal = d := by
  have hdigits := ofDigitChars_natText d.digits
  have hpos := length_natText_pos d.digits
  obtain ⟨n, exponent⟩ := d
  dsimp only at hdigits hpos ⊢
  generalize natText n = digits at *
  have hsigned : ∀ i : Int, (if i < 0 then -1 else 1) * (i.natAbs : Int) = i := fun i => by
    split <;> omega
  simp only [Numeral.decimal, scientificParts, List.take_append_drop, hdigits, Option.elim_some,
    ofDigitChars_natText, List.length_drop, decide_eq_true_eq, hsigned, Shortest.mk.injEq, true_and]
  omega

/-- A number is printed as its shortest decimal, perhaps with zeros at its end. -/
theorem decimal_parts {x : Binary64} (hx : x.isZero = false) :
    (parts x).decimal.Shortens (shortest x) ∧ (parts x).decimal.digits ≤ 10 ^ 17 := by
  have hle := digits_shortest_le hx
  have hlt : (shortest x).digits < 10 ^ (natText (shortest x).digits).length :=
    (Nat.length_toDigits_le_iff (by decide) (length_natText_pos _)).1 (Nat.le_refl _)
  rw [parts, if_neg (Bool.eq_false_iff.1 hx), Form.parts]
  generalize shortest x = d at *
  split
  · rename_i hform
    rcases decimal_positionalParts x.isNegative d with hsame | ⟨e, he, hzeros⟩
    · rw [hsame]
      exact ⟨⟨0, by simp⟩, hle⟩
    · rw [hzeros]
      refine ⟨⟨e + 1, rfl, by dsimp only; omega⟩, ?_⟩
      have hmagnitude : d.exponent + (natText d.digits).length - 1 < 16 := hform.2
      have hpow : 10 ^ ((natText d.digits).length + (e + 1)) ≤ 10 ^ 17 :=
        Nat.pow_le_pow_right (by decide) (by omega)
      rw [Nat.pow_add] at hpow
      exact Nat.le_trans (Nat.mul_le_mul_right _ (Nat.le_of_lt hlt)) hpow
  · rw [decimal_scientificParts]
    exact ⟨⟨0, by simp⟩, hle⟩

theorem contains_parts {x : Binary64} (hx : x.isZero = false) :
    (Interval.of x).contains (parts x).decimal.exponent (parts x).decimal.digits = true := by
  obtain ⟨d, hd, _, hshortens⟩ := shortest_spec hx
  exact (decimal_parts hx).1.contains_iff.2 (hshortens.contains_iff.1 hd)

theorem decimal_parts_of_isZero {x : Binary64} (hx : x.isZero = true) :
    (parts x).decimal = ⟨0, -1⟩ := by
  rw [parts, if_pos hx]
  rfl

theorem negative_parts (x : Binary64) : (parts x).negative = x.isNegative := by
  rw [parts]
  split
  · rfl
  · rw [Form.parts]
    split
    · rw [positionalParts]
      split
      · rfl
      · split <;> rfl
    · rfl

theorem point_parts (x : Binary64) : (parts x).fraction ≠ [] ∨ (parts x).exponent ≠ none := by
  rw [parts]
  split
  · exact .inl (List.cons_ne_nil _ _)
  · rw [Form.parts]
    split
    · rw [positionalParts]
      refine .inl ?_
      split
      · simp [natText_ne_nil]
      · split
        · exact List.cons_ne_nil _ _
        · rename_i hlength
          simpa using hlength
    · exact .inr (Option.some_ne_none _)

end Decimal

namespace Json.Number

open Binary64 Decimal

variable {x : Binary64}

/-- The digits of a floating-point number are all read before they are scaled. -/
theorem reread?_float (x : Binary64) : (Number.float x).reread? =
    floatOf? x.isNegative ⟨(parts x).decimal.digits, (parts x).decimal.exponent, false⟩ := by
  have hfits : (parts x).decimal.digits ≤ maxSignificand := by
    cases hx : x.isZero with
    | true =>
      rw [decimal_parts_of_isZero hx]
      exact Nat.zero_le _
    | false => exact Nat.le_trans (decimal_parts hx).2 (by decide)
  rw [reread?_eq, ← negative_parts]
  exact Numeral.value?_literal hfits (point_parts x)

/-- A floating-point number is read as it is if its digits and the power of ten are exact. -/
theorem reread?_float_of_exact (hx : x.IsFinite) (hdigits : (parts x).decimal.digits < 2 ^ 53)
    (hexponent : (parts x).decimal.exponent.natAbs ≤ 22) :
    (Number.float x).reread? = some (.float x) := by
  have hscaled : (ofNat? (parts x).decimal.digits).bind
      (scaleByPow10? · (parts x).decimal.exponent) = some x.abs := by
    cases hzero : x.isZero with
    | true =>
      have habs : x.abs = Binary64.zero := by
        rw [isZero, beq_iff_eq] at hzero
        rw [Binary64.abs, ← Nat.pow_eq, hzero]
        rfl
      rw [decimal_parts_of_isZero hzero, habs, ofNat?, ofRatio?_eq (Nat.zero_mul _)]
      rfl
    | false =>
      have hcontains := contains_parts hzero
      have hpos := Interval.pos_of_contains (Interval.low_pos hzero) hcontains
      have hone : (parts x).decimal.digits = (parts x).decimal.digits * 2 ^ 0 :=
        (Nat.mul_one _).symm
      obtain ⟨y, hy, hunits, hnegative⟩ := exists_ofNat? hone hdigits (by decide)
      rw [hy, Option.bind_some]
      exact scaleByPow10?_of_contains hunits hpos hnegative hexponent hx hcontains
  obtain ⟨y, hy, hscale⟩ := Option.bind_eq_some_iff.1 hscaled
  rw [reread?_float, floatOf?, hy, Option.bind_eq_bind, Option.bind_some, hscale, Option.bind_some,
    signed_abs]
  rfl

end Json.Number

end ODataGraph
