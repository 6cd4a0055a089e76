import ODataGraph.Json.Literal
import ODataGraph.Proofs.Decimal.Rounding

/-!
Arithmetic on floating-point numbers. Integers of up to 53 bits are exact, and so are small powers
of ten, so that a decimal is read exactly if it is a product or a quotient of these.
-/

namespace ODataGraph

namespace Binary64

variable {x y : Binary64} {num den : Nat}

/-- The number that is made of a scale and a significand, which may be a power of two too large. -/
theorem units_mk {s q : Nat} (hq : q ≤ 2 ^ 53) (hs : s = 0 ∨ 2 ^ 52 ≤ q)
    (hlt : s * 2 ^ 52 + q < 2047 * 2 ^ 52) :
    units ⟨UInt64.ofNat (s * 2 ^ 52 + q)⟩ = q * 2 ^ s := by
  have hbits : (UInt64.ofNat (s * 2 ^ 52 + q)).toNat = s * 2 ^ 52 + q :=
    UInt64.toNat_ofNat_of_lt' (Nat.lt_trans hlt (by decide))
  rw [units, significand, scale, exponentField]
  simp only [Nat.pow_eq, hbits]
  rcases Nat.lt_or_ge q (2 ^ 52) with hsmall | hlarge
  · have hs : s = 0 := hs.resolve_right (Nat.not_le_of_lt hsmall)
    subst hs
    rw [Nat.zero_mul, Nat.zero_add, Nat.div_eq_of_lt hsmall, Nat.mod_eq_of_lt hsmall]
    rfl
  · have hfield : (s * 2 ^ 52 + q) / 2 ^ 52 % 2048 = s + q / 2 ^ 52 := by omega
    rw [hfield, if_neg (by omega)]
    rcases Nat.eq_or_lt_of_le hq with rfl | hlt
    · have hdiv : 2 ^ 53 / 2 ^ 52 = 2 := by decide
      have hmod : (s * 2 ^ 52 + 2 ^ 53) % 2 ^ 52 = 0 := by omega
      rw [hdiv, hmod, Nat.zero_add, Nat.add_sub_assoc (by decide), Nat.pow_add]
      omega
    · have hdiv : q / 2 ^ 52 = 1 := by omega
      have hmod : (s * 2 ^ 52 + q) % 2 ^ 52 = q - 2 ^ 52 := by omega
      rw [hdiv, hmod, Nat.sub_add_cancel hlarge, Nat.add_sub_cancel]

theorem ofRatio?_eq_some {units : Nat} (hunits : num * wholeUnit = units)
    (h : ofRatio? false num den = some y) : magnitude units den < 2047 * 2 ^ 52 ∧
      y = ⟨UInt64.ofNat (magnitude units den)⟩ := by
  rw [ofRatio?_eq hunits] at h
  split at h
  · rename_i hlt
    exact ⟨hlt, (Option.some.inj h).symm⟩
  · cases h

theorem units_of_ofRatio? {units s : Nat} (hunits : num * wholeUnit = units) (hden : 0 < den)
    (hs : IsScale units den s) (h : ofRatio? false num den = some y) :
    y.units = roundDiv units (den * 2 ^ s) * 2 ^ s := by
  have hle := hs.roundDiv_le hden
  have hge := hs.le_roundDiv hden
  obtain ⟨hlt, rfl⟩ := ofRatio?_eq_some hunits h
  rw [magnitude_eq hden hs] at hlt ⊢
  exact units_mk hle (Decidable.or_iff_not_imp_left.2 hge) hlt

theorem isNegative_of_ofRatio? (h : ofRatio? false num den = some y) : y.isNegative = false := by
  obtain ⟨hlt, rfl⟩ := ofRatio?_eq_some rfl h
  generalize magnitude _ den = k at hlt ⊢
  rw [isNegative]
  simp only [Nat.pow_eq, UInt64.toNat_ofNat_of_lt' (Nat.lt_trans hlt (by decide))]
  exact decide_eq_false (by omega)

theorem roundDiv_of_eq_mul {q : Nat} (hden : 0 < den) (h : num = q * den) :
    roundDiv num den = q := by
  subst h
  exact roundDiv_eq (by omega) (by omega) (by omega) hden

/-- A whole number is exact if it has up to 53 bits before the zeros at its end. -/
theorem exists_ofNat? {n c j : Nat} (hn : n = c * 2 ^ j) (hc : c < 2 ^ 53) (hj : j ≤ 900) :
    ∃ y, ofNat? n = some y ∧ y.units = n * wholeUnit ∧ y.isNegative = false := by
  obtain ⟨t, ht⟩ : ∃ t, 1074 = t := ⟨_, rfl⟩
  have hunits : n * wholeUnit = c * 2 ^ (j + t) := by
    rw [hn, wholeUnit_eq ht, Nat.pow_add, Nat.mul_assoc]
  rw [hunits]
  have hscale := isScale_log2 (c * 2 ^ (j + t)) Nat.one_pos
  generalize Nat.log2 _ - 52 = s at hscale
  have hs : s ≤ j + t := by
    refine Nat.le_of_not_lt fun hgt => ?_
    have hpow : 2 ^ (j + t + 1) ≤ 2 ^ s := Nat.pow_le_pow_right (by decide) hgt
    have hlow := hscale.2.resolve_left (by omega)
    have hhigh := Nat.mul_lt_mul_of_pos_right hc (Nat.two_pow_pos (j + t))
    rw [Nat.pow_succ] at hpow
    omega
  have hexact : c * 2 ^ (j + t) = c * 2 ^ (j + t - s) * (1 * 2 ^ s) := by
    rw [Nat.one_mul, Nat.mul_assoc, ← Nat.pow_add, Nat.sub_add_cancel hs]
  have hround := roundDiv_of_eq_mul (den_mul_pos Nat.one_pos s) hexact
  have hle := hscale.roundDiv_le Nat.one_pos
  have hmagnitude := magnitude_eq Nat.one_pos hscale
  have hlt : magnitude (c * 2 ^ (j + t)) 1 < 2047 * 2 ^ 52 := by
    rw [hmagnitude]
    omega
  have hsome : ofRatio? false n 1 = _ := ofRatio?_eq hunits
  rw [if_pos hlt] at hsome
  refine ⟨_, hsome, ?_, isNegative_of_ofRatio? hsome⟩
  rw [units_of_ofRatio? hunits Nat.one_pos hscale hsome, hround, Nat.mul_assoc, ← Nat.pow_add,
    Nat.sub_add_cancel hs]

theorem mul?_eq (hx : x.isNegative = false) (hy : y.isNegative = false) :
    mul? x y = ofRatio? false (x.units * y.units) (wholeUnit * wholeUnit) := by
  have hunits : x.significand * y.significand * Nat.pow 2 (x.scale + y.scale) =
      x.units * y.units := by
    rw [Nat.pow_eq, Nat.pow_add, Nat.mul_mul_mul_comm]
    rfl
  have hsquare : Nat.pow 2 2148 = wholeUnit * wholeUnit := by
    obtain ⟨t, ht⟩ : ∃ t, 1074 = t := ⟨_, rfl⟩
    have hexponent : 2148 = t + t := by omega
    rw [wholeUnit_eq ht, hexponent]
    exact Nat.pow_add 2 t t
  rw [mul?, hx, hy, hunits, hsquare]
  rfl

theorem div?_eq (hx : x.isNegative = false) (hy : y.isNegative = false) :
    div? x y = ofRatio? false x.units y.units := by
  rw [div?, hx, hy]
  rfl

theorem exists_pow10? {k : Nat} (hk : k ≤ 22) :
    ∃ y, pow10? k = some y ∧ y.units = 10 ^ k * wholeUnit ∧ y.isNegative = false := by
  have hfive : 5 ^ k < 2 ^ 53 :=
    Nat.lt_of_le_of_lt (Nat.pow_le_pow_right (by decide) hk) (by decide)
  exact exists_ofNat? (Nat.mul_pow 5 2 k) hfive (by omega)

theorem isZero_eq_false_of_units (h : 0 < x.units) : x.isZero = false := by
  have hbits := bits_mod x
  rw [isZero, Nat.pow_eq, hbits, beq_eq_false_iff_ne]
  have := Nat.pos_of_mul_pos_right h
  omega

end Binary64

namespace Json

open Binary64 Decimal

variable {x y : Binary64} {n : Nat} {k : Int}

/-- Digits that are exact are scaled by a small power of ten as if this was done in one step. -/
theorem scaleByPow10?_of_contains (hy : y.units = n * wholeUnit) (hn : 0 < n)
    (hnegative : y.isNegative = false) (hk : k.natAbs ≤ 22) (hx : x.IsFinite)
    (h : (Interval.of x).contains k n = true) : scaleByPow10? y k = some x.abs := by
  have hzero := isZero_eq_false_of_units (hy ▸ Nat.mul_pos hn wholeUnit_pos)
  have hholds := Interval.contains_iff.1 h
  rw [scaleByPow10?, if_neg (Bool.eq_false_iff.1 hzero), if_neg (by omega)]
  split
  · obtain ⟨p, hp, hunits, hp0⟩ := exists_pow10? (k := k.toNat) (by omega)
    have hden : (-k).toNat = 0 := by omega
    rw [hden] at hholds
    rw [hp, Option.bind_eq_bind, Option.bind_some, mul?_eq hnegative hp0, hy, hunits]
    refine ofRatio?_of_holds hx (Nat.mul_pos wholeUnit_pos wholeUnit_pos) ?_
    refine (Interval.holds_congr Nat.one_pos (Nat.mul_pos wholeUnit_pos wholeUnit_pos) ?_).1 hholds
    rw [Nat.mul_one, Nat.mul_mul_mul_comm]
  · rw [if_pos (by omega)]
    obtain ⟨p, hp, hunits, hp0⟩ := exists_pow10? (k := (-k).toNat) (by omega)
    dsimp only
    have hnum : k.toNat = 0 := by omega
    have hten : 0 < 10 ^ (-k).toNat := Nat.pow_pos (by decide)
    rw [hnum, Nat.pow_zero, Nat.mul_one] at hholds
    rw [hp, Option.bind_eq_bind, Option.bind_some, div?_eq hnegative hp0, hy, hunits]
    refine ofRatio?_of_holds hx (Nat.mul_pos hten wholeUnit_pos) ?_
    refine (Interval.holds_congr hten (Nat.mul_pos hten wholeUnit_pos) ?_).1 hholds
    rw [Nat.mul_right_comm, Nat.mul_assoc]

end Json

end ODataGraph
