import Mathlib.Tactic.SplitIfs
import ODataGraph.Proofs.Decimal.Shortest

/-!
Rounding to the nearest floating-point number. A fraction in the rounding interval of a number is
rounded to that number, and rounding keeps the order of fractions.
-/

namespace ODataGraph

namespace Binary64

/-! ### Integers -/

theorem roundDiv_eq {num den q : Nat} (hlow : 2 * (q * den) ≤ 2 * num + den)
    (hhigh : 2 * num ≤ 2 * (q * den) + den)
    (heven : 2 * (q * den) = 2 * num + den ∨ 2 * num = 2 * (q * den) + den → q % 2 = 0)
    (hden : 0 < den) : roundDiv num den = q := by
  have hdiv := Nat.div_add_mod' num den
  have hmod := Nat.mod_lt num hden
  rw [roundDiv]
  generalize num / den = k at hdiv ⊢
  generalize num % den = r at hdiv hmod ⊢
  have hq : q = k ∨ q = k + 1 := by
    rcases Nat.lt_trichotomy q k with hlt | heq | hgt
    · have := Nat.mul_le_mul_right den hlt
      rw [Nat.succ_mul] at this
      omega
    · exact .inl heq
    · rcases Nat.lt_or_ge (k + 1) q with hlt | hge
      · have := Nat.mul_le_mul_right den hlt
        rw [Nat.succ_mul, Nat.succ_mul] at this
        omega
      · exact .inr (by omega)
  rcases hq with rfl | rfl
  · split_ifs <;> omega
  · rw [Nat.succ_mul k] at hlow hhigh heven
    split_ifs <;> omega

theorem roundDiv_spec (num : Nat) {den : Nat} (hden : 0 < den) :
    2 * (roundDiv num den * den) ≤ 2 * num + den ∧ 2 * num ≤ 2 * (roundDiv num den * den) + den ∧
      (2 * (roundDiv num den * den) = 2 * num + den ∨
        2 * num = 2 * (roundDiv num den * den) + den → roundDiv num den % 2 = 0) := by
  have hdiv := Nat.div_add_mod' num den
  have hmod := Nat.mod_lt num hden
  rw [roundDiv]
  generalize num / den = k at hdiv ⊢
  generalize num % den = r at hdiv hmod ⊢
  split_ifs
  · omega
  · rw [Nat.succ_mul k]
    omega
  · rcases Nat.mod_two_eq_zero_or_one k with hparity | hparity
    · rw [hparity, Nat.add_zero]
      omega
    · rw [hparity, Nat.succ_mul k]
      omega

/-- Larger fractions are rounded to larger integers. -/
theorem roundDiv_mono {num den num' den' : Nat} (hden : 0 < den) (hden' : 0 < den')
    (h : num * den' ≤ num' * den) : roundDiv num den ≤ roundDiv num' den' := by
  obtain ⟨hlow, _, heven⟩ := roundDiv_spec num hden
  obtain ⟨_, hhigh, heven'⟩ := roundDiv_spec num' hden'
  generalize roundDiv num den = q at *
  generalize roundDiv num' den' = q' at *
  refine Nat.le_of_not_lt fun hlt => ?_
  -- both fractions would be halfway between neighbours, of which only one is even
  have hstep := Nat.mul_le_mul_right (den * den') hlt
  rw [Nat.succ_mul q'] at hstep
  have hcomm := Nat.mul_comm den' den
  have hlow' := Nat.mul_le_mul_right den' hlow
  have hhigh' := Nat.mul_le_mul_right den hhigh
  simp only [Nat.add_mul, Nat.mul_assoc, hcomm] at hlow' hhigh'
  have htie : 2 * (q * den) = 2 * num + den := by
    refine Nat.eq_of_mul_eq_mul_right hden' ?_
    simp only [Nat.add_mul, Nat.mul_assoc]
    omega
  have htie' : 2 * num' = 2 * (q' * den') + den' := by
    refine Nat.eq_of_mul_eq_mul_right hden ?_
    simp only [Nat.add_mul, Nat.mul_assoc, hcomm]
    omega
  have hnext : q = q' + 1 := by
    refine Nat.eq_of_mul_eq_mul_right (Nat.mul_pos hden hden') ?_
    rw [Nat.succ_mul]
    omega
  have := heven (.inl htie)
  have := heven' (.inr htie')
  omega

/-! ### The scale -/

/-- A fraction has as many units of a scale as a significand can count, and not fewer than it has
unless the scale is the smallest. -/
def IsScale (num den s : Nat) : Prop :=
  num < 2 ^ 53 * (den * 2 ^ s) ∧ (s = 0 ∨ 2 ^ 52 * (den * 2 ^ s) ≤ num)

theorem isScale_log2 (num : Nat) {den : Nat} (hden : 0 < den) :
    IsScale num den (Nat.log2 (num / den) - 52) := by
  have hmul : ∀ k s, 2 ^ k * (den * 2 ^ s) = 2 ^ (k + s) * den := fun k s => by
    rw [Nat.mul_comm den, ← Nat.mul_assoc, ← Nat.pow_add]
  rw [IsScale, hmul, hmul]
  constructor
  · refine (Nat.div_lt_iff_lt_mul hden).1 (Nat.lt_of_lt_of_le Nat.lt_log2_self ?_)
    exact Nat.pow_le_pow_right (by decide) (by omega)
  · by_cases hsmall : Nat.log2 (num / den) ≤ 52
    · exact .inl (by omega)
    · refine .inr ((Nat.le_div_iff_mul_le hden).1 ?_)
      rw [show 52 + (Nat.log2 (num / den) - 52) = Nat.log2 (num / den) by omega]
      refine Nat.log2_self_le fun hzero => hsmall ?_
      rw [hzero]
      decide

/-- Larger fractions have larger scales. -/
theorem IsScale.mono {num den num' den' s s' : Nat} (hden : 0 < den)
    (h : IsScale num den s) (h' : IsScale num' den' s') (hle : num * den' ≤ num' * den) :
    s ≤ s' := by
  rcases h.2 with rfl | hlow
  · exact Nat.zero_le _
  · refine Nat.le_of_not_lt fun hgt => ?_
    have hpow : 2 ^ (s' + 1) ≤ 2 ^ s := Nat.pow_le_pow_right (by decide) hgt
    have hunits := Nat.mul_le_mul_left (den * den') hpow
    have hlow' := Nat.mul_le_mul_right den' hlow
    have hhigh' := Nat.mul_lt_mul_of_pos_right h'.1 hden
    rw [Nat.pow_succ, ← Nat.mul_assoc] at hunits
    have hcomm : 2 ^ 52 * (den * 2 ^ s) * den' = 2 ^ 52 * (den * den' * 2 ^ s) := by
      simp only [Nat.mul_assoc, Nat.mul_comm den']
    have hcomm' : 2 ^ 53 * (den' * 2 ^ s') * den = 2 ^ 53 * (den * den' * 2 ^ s') := by
      simp only [Nat.mul_assoc, Nat.mul_comm den, Nat.mul_left_comm den']
    omega

theorem IsScale.unique {num den s s' : Nat} (hden : 0 < den) (h : IsScale num den s)
    (h' : IsScale num den s') : s = s' :=
  Nat.le_antisymm (h.mono hden h' (Nat.le_refl _)) (h'.mono hden h (Nat.le_refl _))

/-- The bits of the number nearest to a fraction, apart from the sign. -/
def magnitude (num den : Nat) : Nat :=
  let scale := Nat.log2 (num / den) - 52
  scale * 2 ^ 52 + roundDiv num (den * 2 ^ scale)

/-- How many of the smallest units make one. -/
def wholeUnit : Nat := Nat.pow 2 1074

theorem wholeUnit_eq {t : Nat} (ht : 1074 = t) : wholeUnit = 2 ^ t := by
  unfold wholeUnit
  rw [ht]
  rfl

theorem wholeUnit_pos : 0 < wholeUnit := by
  obtain ⟨t, ht⟩ : ∃ t, 1074 = t := ⟨_, rfl⟩
  rw [wholeUnit_eq ht]
  exact Nat.two_pow_pos t

theorem ofRatio?_signed (negative : Bool) {num den units : Nat} (hunits : num * wholeUnit = units) :
    ofRatio? negative num den = if magnitude units den < 2047 * 2 ^ 52 then
      some ⟨UInt64.ofNat (magnitude units den + if negative then 2 ^ 63 else 0)⟩ else none := by
  unfold wholeUnit at hunits
  subst hunits
  rfl

theorem ofRatio?_eq {num den units : Nat} (hunits : num * wholeUnit = units) :
    ofRatio? false num den = if magnitude units den < 2047 * 2 ^ 52 then
      some ⟨UInt64.ofNat (magnitude units den)⟩ else none := by
  have hunsigned : ofRatio? false num den = _ := ofRatio?_signed false hunits
  rwa [if_neg Bool.false_ne_true, Nat.add_zero] at hunsigned

theorem magnitude_eq {num den s : Nat} (hden : 0 < den) (h : IsScale num den s) :
    magnitude num den = s * 2 ^ 52 + roundDiv num (den * 2 ^ s) := by
  rw [magnitude, (isScale_log2 num hden).unique hden h]

theorem den_mul_pos {den : Nat} (hden : 0 < den) (s : Nat) : 0 < den * 2 ^ s :=
  Nat.mul_pos hden (Nat.two_pow_pos s)

theorem IsScale.roundDiv_le {num den s : Nat} (hden : 0 < den) (h : IsScale num den s) :
    roundDiv num (den * 2 ^ s) ≤ 2 ^ 53 := by
  have hle : num * 1 ≤ 2 ^ 53 * (den * 2 ^ s) := by
    rw [Nat.mul_one]
    exact Nat.le_of_lt h.1
  exact roundDiv_mono (den_mul_pos hden s) (by decide) hle

theorem IsScale.le_roundDiv {num den s : Nat} (hden : 0 < den) (h : IsScale num den s)
    (hs : s ≠ 0) : 2 ^ 52 ≤ roundDiv num (den * 2 ^ s) := by
  have hle : 2 ^ 52 * (den * 2 ^ s) ≤ num * 1 := by
    rw [Nat.mul_one]
    exact h.2.resolve_left hs
  exact roundDiv_mono (by decide) (den_mul_pos hden s) hle

/-- Larger fractions are rounded to larger numbers. -/
theorem magnitude_mono {num den num' den' : Nat} (hden : 0 < den) (hden' : 0 < den')
    (h : num * den' ≤ num' * den) : magnitude num den ≤ magnitude num' den' := by
  have hscale := isScale_log2 num hden
  have hscale' := isScale_log2 num' hden'
  have hle := hscale.mono hden hscale' h
  rw [magnitude_eq hden hscale, magnitude_eq hden' hscale']
  generalize Nat.log2 (num / den) - 52 = s at *
  generalize Nat.log2 (num' / den') - 52 = s' at *
  rcases Nat.eq_or_lt_of_le hle with rfl | hlt
  · refine Nat.add_le_add_left (roundDiv_mono (den_mul_pos hden s) (den_mul_pos hden' s) ?_) _
    rw [← Nat.mul_assoc, ← Nat.mul_assoc]
    exact Nat.mul_le_mul_right _ h
  · have hhigh := hscale.roundDiv_le hden
    have hlow := hscale'.le_roundDiv hden' (by omega)
    omega

/-! ### The parts of a number -/

variable {x : Binary64}

/-- Neither infinite nor not a number. -/
def IsFinite (x : Binary64) : Prop := x.exponentField < 2047

instance : DecidablePred IsFinite := fun x => inferInstanceAs (Decidable (x.exponentField < 2047))

/-- Only at the smallest scale are significands small. -/
theorem scale_eq_zero_or_le_significand (x : Binary64) : x.scale = 0 ∨ 2 ^ 52 ≤ x.significand := by
  rw [scale, significand]
  simp only [Nat.pow_eq]
  split <;> omega

/-- A number without its sign, in units of the smallest positive one. -/
def units (x : Binary64) : Nat := x.significand * 2 ^ x.scale

/-- The bits of a number apart from its sign. -/
theorem bits_mod (x : Binary64) :
    x.bits.toNat % 2 ^ 63 = x.scale * 2 ^ 52 + x.significand := by
  have hfield : x.exponentField = x.bits.toNat / 2 ^ 52 % 2048 := rfl
  rw [scale, significand]
  simp only [Nat.pow_eq]
  split <;> omega

end Binary64

namespace Decimal

open Binary64

/-! ### Rounding intervals -/

variable {x : Binary64} {num den : Nat}

theorem unitDen_eq : unitDen = 4 * wholeUnit := by
  obtain ⟨t, ht⟩ : ∃ t, 1074 = t := ⟨_, rfl⟩
  have hexponent : 1076 = 2 + t := by omega
  unfold unitDen
  rw [wholeUnit_eq ht, hexponent]
  exact Nat.pow_add 2 2 t

/-- What it means to be in the rounding interval, in units of the last place. -/
theorem Interval.Holds.bounds (h : (Interval.of x).Holds num den) {units place : Nat}
    (hunits : units = num * wholeUnit) (hplace : place = den * 2 ^ x.scale) :
    4 * (x.significand * place) ≤ 4 * units + 2 * place ∧
      4 * units ≤ 4 * (x.significand * place) + 2 * place ∧
      (x.significand % 2 = 1 → 4 * (x.significand * place) < 4 * units + 2 * place ∧
        4 * units < 4 * (x.significand * place) + 2 * place) ∧
      (x.significand = 2 ^ 52 → x.scale ≠ 0 →
        4 * (x.significand * place) ≤ 4 * units + place) := by
  have hquarter : num * unitDen = 4 * units := by
    rw [unitDen_eq, Nat.mul_left_comm, hunits]
  have hend : ∀ n, n * 2 ^ x.scale * den = n * place := fun n => by
    rw [Nat.mul_assoc, Nat.mul_comm _ den, hplace]
  have hfield : x.scale = x.exponentField - 1 := rfl
  have hhigh : (4 * x.significand + 2) * place = 4 * (x.significand * place) + 2 * place := by
    rw [Nat.add_mul, Nat.mul_assoc]
  rw [Interval.Holds, hquarter] at h
  simp only [Interval.of, Nat.pow_eq, hend, hhigh, beq_iff_eq] at h
  refine ⟨?_, ?_, ?_, ?_⟩
  · split_ifs at h <;> simp only [Nat.sub_mul, Nat.mul_assoc] at h <;> omega
  · split_ifs at h <;> omega
  · intro hodd
    rw [if_neg (by omega), if_neg] at h
    · simp only [Nat.sub_mul, Nat.mul_assoc] at h
      omega
    · omega
  · intro hm hs
    rw [if_pos (by omega), if_pos ⟨hm, by omega⟩] at h
    simp only [Nat.sub_mul, Nat.mul_assoc] at h
    omega

/-- A fraction in the rounding interval of a number is rounded to it. -/
theorem magnitude_of_holds (hden : 0 < den) (h : (Interval.of x).Holds num den) :
    magnitude (num * wholeUnit) den = x.scale * 2 ^ 52 + x.significand := by
  have hpos := den_mul_pos hden x.scale
  have hlt := Nat.mul_le_mul_right (den * 2 ^ x.scale) (x.significand_lt)
  obtain ⟨hlow, hhigh, hodd, hfirst⟩ := h.bounds rfl rfl
  generalize num * wholeUnit = units at *
  have hscale : units < 2 ^ 53 * (den * 2 ^ x.scale) := by
    rw [Nat.succ_mul] at hlt
    omega
  by_cases hplace : x.scale = 0 ∨ 2 ^ 52 * (den * 2 ^ x.scale) ≤ units
  · rw [magnitude_eq hden ⟨hscale, hplace⟩,
      roundDiv_eq (q := x.significand) (by omega) (by omega) (by omega) hpos]
  · -- just below a power of two, at the scale before
    rw [not_or, Nat.not_le] at hplace
    obtain ⟨s, hs⟩ := Nat.exists_eq_succ_of_ne_zero hplace.1
    have hm : x.significand = 2 ^ 52 := by
      have hge := (scale_eq_zero_or_le_significand x).resolve_left hplace.1
      refine Nat.le_antisymm (Nat.le_of_not_lt fun hgt => ?_) hge
      have := Nat.mul_le_mul_right (den * 2 ^ x.scale) hgt
      rw [Nat.succ_mul] at this
      omega
    have hfirst := hfirst hm hplace.1
    have hdouble : den * 2 ^ x.scale = den * 2 ^ s * 2 := by
      rw [hs, Nat.pow_succ, Nat.mul_assoc]
    have hpos := den_mul_pos hden s
    rw [hm] at hfirst ⊢
    rw [magnitude_eq (s := s) hden ⟨by omega, .inr (by omega)⟩,
      roundDiv_eq (q := 2 ^ 53) (by omega) (by omega) (by omega) hpos]
    omega

theorem Interval.holds_congr {i : Interval} {num' den' : Nat} (hden : 0 < den) (hden' : 0 < den')
    (h : num * den' = num' * den) : i.Holds num den ↔ i.Holds num' den' := by
  have hend : ∀ n, n * den * den' = n * den' * den := fun n => Nat.mul_right_comm ..
  have hmiddle : num * unitDen * den' = num' * unitDen * den := by
    rw [Nat.mul_right_comm, h, Nat.mul_right_comm]
  have hle : ∀ n, n * den ≤ num * unitDen ↔ n * den' ≤ num' * unitDen := fun n => by
    rw [← Nat.mul_le_mul_right_iff hden', hend, hmiddle, Nat.mul_le_mul_right_iff hden]
  have hge : ∀ n, num * unitDen ≤ n * den ↔ num' * unitDen ≤ n * den' := fun n => by
    rw [← Nat.mul_le_mul_right_iff hden', hend, hmiddle, Nat.mul_le_mul_right_iff hden]
  simp only [Holds, hle, hge, ← Nat.not_le]

theorem Shortest.Shortens.contains_iff {i : Interval} {d d' : Shortest} (h : d.Shortens d') :
    i.contains d.exponent d.digits = true ↔ i.contains d'.exponent d'.digits = true := by
  obtain ⟨j, hdigits, hexponent⟩ := h
  have hpow : ∀ e, 0 < 10 ^ e := fun e => Nat.pow_pos (by decide)
  rw [Interval.contains_iff, Interval.contains_iff]
  refine Interval.holds_congr (hpow _) (hpow _) ?_
  rw [hdigits, Nat.mul_assoc, Nat.mul_assoc, Nat.mul_assoc, ← Nat.pow_add, ← Nat.pow_add,
    ← Nat.pow_add]
  congr 2
  omega

end Decimal

namespace Binary64

variable {x : Binary64} {num den : Nat}

/-- A number without its sign. -/
def abs (x : Binary64) : Binary64 := ⟨UInt64.ofNat (x.bits.toNat % 2 ^ 63)⟩

/-- A fraction in the rounding interval of a number is rounded to it. -/
theorem ofRatio?_of_holds (hx : x.IsFinite) (hden : 0 < den)
    (h : (Decimal.Interval.of x).Holds num den) : ofRatio? false num den = some x.abs := by
  have hmagnitude := Decimal.magnitude_of_holds hden h
  rw [← bits_mod] at hmagnitude
  have hlt : x.bits.toNat % 2 ^ 63 < 2047 * 2 ^ 52 := by
    have hfield : x.bits.toNat / 2 ^ 52 % 2048 < 2047 := hx
    omega
  rw [ofRatio?_eq rfl, hmagnitude, if_pos hlt]
  rfl

theorem xor_two_pow {n i : Nat} (h : n < 2 ^ i) : n ^^^ 2 ^ i = 2 ^ i + n := by
  have hdiv : (n ^^^ 2 ^ i) / 2 ^ i = 1 := by
    rw [Nat.xor_div_two_pow, Nat.div_eq_of_lt h, Nat.div_self (Nat.two_pow_pos i), Nat.zero_xor]
  have hmod : (n ^^^ 2 ^ i) % 2 ^ i = n := by
    rw [Nat.xor_mod_two_pow, Nat.mod_self, Nat.xor_zero, Nat.mod_eq_of_lt h]
  rw [← Nat.div_add_mod (n ^^^ 2 ^ i) (2 ^ i), hdiv, hmod, Nat.mul_one]

/-- A number is what it is without its sign, with its sign. -/
theorem signed_abs (x : Binary64) : (if x.isNegative then x.abs.neg else x.abs) = x := by
  obtain ⟨bits⟩ := x
  have hlt := bits.toNat_lt
  rw [isNegative, abs]
  simp only [Nat.pow_eq, decide_eq_true_eq]
  split
  · rw [neg, mk.injEq]
    refine UInt64.toNat_inj.1 ?_
    have htop : (0x8000000000000000 : UInt64).toNat = 2 ^ 63 := rfl
    have hmod := Nat.mod_lt bits.toNat (Nat.two_pow_pos 63)
    have hrest := UInt64.toNat_ofNat_of_lt' (Nat.lt_trans hmod (by decide))
    rw [UInt64.toNat_xor, htop, hrest, xor_two_pow hmod]
    omega
  · rw [Nat.mod_eq_of_lt (by omega), UInt64.ofNat_toNat]

end Binary64

end ODataGraph
