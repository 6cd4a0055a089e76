import ODataGraph.Proofs.Decimal.Rereading

/-!
Numbers that are read back are never out of range. Only the largest finite number is printed as a
decimal above it, and that one is read as it is.
-/

namespace ODataGraph

namespace Binary64

variable {x x' y y' : Binary64} {num den num' den' : Nat}

/-! ### Order -/

theorem isSome_ofRatio?_mono (hden : 0 < den) (hden' : 0 < den')
    (h : num * den' ≤ num' * den) (hsome : (ofRatio? false num' den').isSome) :
    (ofRatio? false num den).isSome := by
  obtain ⟨y, hy⟩ := Option.isSome_iff_exists.1 hsome
  have hlt := (ofRatio?_eq_some rfl hy).1
  have hle : magnitude (num * wholeUnit) den ≤ magnitude (num' * wholeUnit) den' := by
    refine magnitude_mono hden hden' ?_
    rw [Nat.mul_right_comm, Nat.mul_right_comm num']
    exact Nat.mul_le_mul_right _ h
  rw [ofRatio?_eq rfl, if_pos (Nat.lt_of_le_of_lt hle hlt)]
  rfl

theorem units_mono (hden : 0 < den) (hden' : 0 < den') (h : num * den' ≤ num' * den)
    (hy : ofRatio? false num den = some y) (hy' : ofRatio? false num' den' = some y') :
    y.units ≤ y'.units := by
  have hunits : num * wholeUnit * den' ≤ num' * wholeUnit * den := by
    rw [Nat.mul_right_comm, Nat.mul_right_comm num']
    exact Nat.mul_le_mul_right _ h
  have hscale := isScale_log2 (num * wholeUnit) hden
  have hscale' := isScale_log2 (num' * wholeUnit) hden'
  have hle := hscale.mono hden hscale' hunits
  rw [units_of_ofRatio? rfl hden hscale hy, units_of_ofRatio? rfl hden' hscale' hy']
  generalize Nat.log2 (num * wholeUnit / den) - 52 = s at *
  generalize Nat.log2 (num' * wholeUnit / den') - 52 = s' at *
  rcases Nat.eq_or_lt_of_le hle with rfl | hlt
  · refine Nat.mul_le_mul_right _ (roundDiv_mono (den_mul_pos hden s) (den_mul_pos hden' s) ?_)
    rw [← Nat.mul_assoc, ← Nat.mul_assoc]
    exact Nat.mul_le_mul_right _ hunits
  · have hhigh := Nat.mul_le_mul_right (2 ^ s) (hscale.roundDiv_le hden)
    have hlow := Nat.mul_le_mul_right (2 ^ s') (hscale'.le_roundDiv hden' (by omega))
    have hpow : 2 ^ (s + 1) ≤ 2 ^ s' := Nat.pow_le_pow_right (by decide) hlt
    rw [Nat.pow_succ] at hpow
    omega

/-! ### Digits and powers of ten -/

/-- A number that is not negative and at most as large as the digits of a number can be. -/
def IsSmall (x : Binary64) : Prop := x.isNegative = false ∧ x.units ≤ 10 ^ 17 * wholeUnit

theorem exists_ofNat?_mono {m n : Nat} (h : m ≤ n) (hn : (ofNat? n).isSome = true) :
    ∃ y, ofNat? m = some y ∧ y.isNegative = false ∧
      ∀ y', ofNat? n = some y' → y.units ≤ y'.units := by
  have hle := Nat.mul_le_mul_right 1 h
  simp only [ofNat?] at hn ⊢
  obtain ⟨y, hy⟩ := Option.isSome_iff_exists.1 (isSome_ofRatio?_mono Nat.one_pos Nat.one_pos hle hn)
  exact ⟨y, hy, isNegative_of_ofRatio? hy, fun _ => units_mono Nat.one_pos Nat.one_pos hle hy⟩

theorem exists_ofNat?_limit :
    ∃ y, ofNat? (10 ^ 17) = some y ∧ y.units = 10 ^ 17 * wholeUnit := by
  have hten : 10 ^ 17 = 5 ^ 17 * 2 ^ 17 := by decide
  obtain ⟨y, hy, hunits, _⟩ := exists_ofNat? hten (by decide) (by decide)
  exact ⟨y, hy, hunits⟩

theorem exists_ofNat?_of_le {n : Nat} (hn : n ≤ 10 ^ 17) : ∃ y, ofNat? n = some y ∧ y.IsSmall := by
  obtain ⟨y', hy', hunits⟩ := exists_ofNat?_limit
  obtain ⟨y, hy, hnegative, hle⟩ := exists_ofNat?_mono hn (Option.isSome_of_eq_some hy')
  have hle := hle y' hy'
  rw [hunits] at hle
  exact ⟨y, hy, hnegative, hle⟩

/-- Powers of ten are at least one. -/
theorem exists_pow10?_mono {k n : Nat} (h : k ≤ n) (hn : (pow10? n).isSome = true) :
    ∃ y, pow10? k = some y ∧ wholeUnit ≤ y.units ∧ y.isNegative = false ∧
      ∀ y', pow10? n = some y' → y.units ≤ y'.units := by
  have hone : 1 ≤ Nat.pow 10 k := Nat.pow_pos (by decide)
  obtain ⟨y, hy, hnegative, hmost⟩ := exists_ofNat?_mono (Nat.pow_le_pow_right (by decide) h) hn
  obtain ⟨y', hy', hunits, _⟩ := exists_ofNat? (show 1 = 1 * 2 ^ 0 from rfl) (by decide) (by decide)
  obtain ⟨_, hfirst, _, hle⟩ := exists_ofNat?_mono hone (Option.isSome_of_eq_some hy)
  cases hfirst.symm.trans hy'
  have hle := hle y hy
  rw [hunits, Nat.one_mul] at hle
  exact ⟨y, hy, hle, hnegative, hmost⟩

theorem isSome_mul?_mono (hx : x.isNegative = false) (hx' : x'.isNegative = false)
    (hy : y.isNegative = false) (hy' : y'.isNegative = false) (hxle : x.units ≤ x'.units)
    (hyle : y.units ≤ y'.units) (h : (mul? x' y').isSome = true) : (mul? x y).isSome = true := by
  have hpos := Nat.mul_pos wholeUnit_pos wholeUnit_pos
  rw [mul?_eq hx' hy'] at h
  rw [mul?_eq hx hy]
  exact isSome_ofRatio?_mono hpos hpos (Nat.mul_le_mul_right _ (Nat.mul_le_mul hxle hyle)) h

theorem exists_div? (hx : x.IsSmall) (hy : wholeUnit ≤ y.units) (hnegative : y.isNegative = false) :
    ∃ z, div? x y = some z ∧ z.IsSmall := by
  obtain ⟨y', hy', hunits⟩ := exists_ofNat?_limit
  have hpos := Nat.lt_of_lt_of_le wholeUnit_pos hy
  have hle : x.units * 1 ≤ 10 ^ 17 * y.units := by
    rw [Nat.mul_one]
    exact Nat.le_trans hx.2 (Nat.mul_le_mul_left _ hy)
  rw [ofNat?] at hy'
  have hsome := isSome_ofRatio?_mono hpos Nat.one_pos hle (Option.isSome_of_eq_some hy')
  obtain ⟨z, hz⟩ := Option.isSome_iff_exists.1 hsome
  have hmono := units_mono hpos Nat.one_pos hle hz hy'
  rw [hunits] at hmono
  exact ⟨z, (div?_eq hx.1 hnegative).trans hz, isNegative_of_ofRatio? hz, hmono⟩

end Binary64

namespace Json

open Binary64 Decimal

variable {x y : Binary64} {n : Nat} {k : Int}

/-! ### Scaling -/

/-- Numbers above this one are rounded to the largest finite one or are out of range. -/
def limit : Nat := (Nat.pow 2 55 - 6) * Nat.pow 2 969

theorem limit_mul_unitDen {t : Nat} (ht : 2045 = t) : limit * unitDen = (2 ^ 55 - 6) * 2 ^ t := by
  obtain ⟨m, hm⟩ : ∃ m, 969 = m := ⟨_, rfl⟩
  obtain ⟨n, hn⟩ : ∃ n, 1076 = n := ⟨_, rfl⟩
  have hexponent : t = m + n := by omega
  unfold limit unitDen
  rw [hm, hn, hexponent, Nat.pow_add, ← Nat.mul_assoc]
  rfl

theorem limit_lt {t : Nat} (ht : 309 = t) : limit < 10 ^ t := by
  obtain ⟨m, hm⟩ : ∃ m, 969 = m := ⟨_, rfl⟩
  -- `2 ^ 65 ≤ 5 ^ 28`, and eleven times the exponents are `1024 - 309` and `309 - 1`
  obtain ⟨k, hk⟩ : ∃ k, 11 = k := ⟨_, rfl⟩
  have hexponent : 55 + m = 65 * k + t := by omega
  calc limit = (2 ^ 55 - 6) * 2 ^ m := by rw [limit, hm]; rfl
    _ < 2 ^ 55 * 2 ^ m := Nat.mul_lt_mul_of_pos_right (by decide) (Nat.two_pow_pos m)
    _ = (2 ^ 65) ^ k * 2 ^ t := by rw [← Nat.pow_add, hexponent, Nat.pow_add, Nat.pow_mul]
    _ ≤ (5 ^ 28) ^ k * 2 ^ t := Nat.mul_le_mul_right _ (Nat.pow_le_pow_left (by decide) k)
    _ ≤ 5 ^ t * 2 ^ t := by
      rw [← Nat.pow_mul]
      exact Nat.mul_le_mul_right _ (Nat.pow_le_pow_right (by decide) (by omega))
    _ = 10 ^ t := (Nat.mul_pow 5 2 t).symm

/-- The digits that can at most be scaled by a power of ten, if not the largest finite number is
meant. -/
def mostDigits (k : Nat) : Nat := min (limit / Nat.pow 10 k) (Nat.pow 10 17)

/-- Any digits can be scaled by `10 ^ 288`, and the most digits by each power from there on. -/
theorem scale_mostDigits : mostDigits 288 = Nat.pow 10 17 ∧ ∀ j < 21,
    ((ofNat? (mostDigits (288 + j))).bind fun y => (pow10? (288 + j)).bind y.mul?).isSome =
      true := by
  decide +kernel

theorem isSome_pow10?_last : (pow10? 308).isSome = true := by
  obtain ⟨z, hz⟩ := Option.isSome_iff_exists.1 (scale_mostDigits.2 20 (by decide))
  obtain ⟨_, _, hz⟩ := Option.bind_eq_some_iff.1 hz
  obtain ⟨_, hp, _⟩ := Option.bind_eq_some_iff.1 hz
  exact Option.isSome_of_eq_some hp

theorem exists_down (hy : y.IsSmall) {n : Nat} (hn : n ≤ 308) :
    ∃ z, ((pow10? n).bind fun p => y.div? p) = some z ∧ z.IsSmall := by
  obtain ⟨p, hp, hunits, hnegative, _⟩ := exists_pow10?_mono hn isSome_pow10?_last
  rw [hp, Option.bind_some]
  exact exists_div? hy hunits hnegative

theorem isSome_scaleByPow10?_of_neg (hy : y.IsSmall) (hk : k < 0) :
    (scaleByPow10? y k).isSome = true := by
  rw [scaleByPow10?]
  split
  · rfl
  · rw [if_neg (by omega), if_neg (by omega)]
    simp only [Option.bind_eq_bind]
    split
    · obtain ⟨z, hz, _⟩ := exists_down hy (n := (-k).toNat) (by omega)
      rw [hz]
      rfl
    · split
      · obtain ⟨z, hz, hsmall⟩ := exists_down hy (n := 308) (by decide)
        obtain ⟨z', hz', _⟩ := exists_down hsmall (n := (-k - 308).toNat) (by omega)
        rw [hz, Option.bind_some, hz']
        rfl
      · rfl

/-- Digits and a power of ten that are smaller than others whose product is in range. -/
theorem isSome_scale_mono {m n j k : Nat} (hn : m ≤ n) (hk : j ≤ k)
    (h : ((ofNat? n).bind fun y => (pow10? k).bind y.mul?).isSome = true) :
    ((ofNat? m).bind fun y => (pow10? j).bind y.mul?).isSome = true := by
  obtain ⟨z, hz⟩ := Option.isSome_iff_exists.1 h
  obtain ⟨y', hy', hz⟩ := Option.bind_eq_some_iff.1 hz
  obtain ⟨p', hp', hz⟩ := Option.bind_eq_some_iff.1 hz
  obtain ⟨y, hy, hnegative, hyle⟩ := exists_ofNat?_mono hn (Option.isSome_of_eq_some hy')
  obtain ⟨p, hp, _, hpnegative, hple⟩ := exists_pow10?_mono hk (Option.isSome_of_eq_some hp')
  rw [hy, Option.bind_some, hp, Option.bind_some]
  rw [ofNat?] at hy'
  rw [pow10?, ofNat?] at hp'
  exact isSome_mul?_mono hnegative (isNegative_of_ofRatio? hy') hpnegative
    (isNegative_of_ofRatio? hp') (hyle y' hy') (hple p' hp') (Option.isSome_of_eq_some hz)

theorem isSome_scale {k : Nat} (hn : n ≤ Nat.pow 10 17) (hk : k ≤ 308)
    (hle : n * Nat.pow 10 k ≤ limit) :
    ((ofNat? n).bind fun y => (pow10? k).bind y.mul?).isSome = true := by
  obtain ⟨hmost, hscale⟩ := scale_mostDigits
  rcases Nat.le_total k 288 with hsmall | hlarge
  · exact isSome_scale_mono (hmost ▸ hn) hsmall (hscale 0 (by decide))
  · obtain ⟨j, rfl⟩ := Nat.exists_eq_add_of_le hlarge
    refine isSome_scale_mono ?_ (Nat.le_refl _) (hscale j (by omega))
    exact Nat.le_min.2 ⟨(Nat.le_div_iff_mul_le (Nat.pow_pos (by decide))).2 hle, hn⟩

/-- The rounding interval of a number below the largest one ends at the limit. -/
theorem high_mul_le {t : Nat} (h : x.scale * 2 ^ 52 + x.significand < t * 2 ^ 52 + (2 ^ 53 - 1)) :
    (4 * x.significand + 2) * 2 ^ x.scale ≤ (2 ^ 55 - 6) * 2 ^ t := by
  have hlt := x.significand_lt
  have hle : x.scale ≤ t := by
    rcases scale_eq_zero_or_le_significand x with hzero | hge
    · exact hzero ▸ Nat.zero_le t
    · omega
  rcases Nat.eq_or_lt_of_le hle with hsame | hless
  · rw [hsame] at h ⊢
    exact Nat.mul_le_mul_right _ (by omega)
  · have hpow : 2 ^ (x.scale + 1) ≤ 2 ^ t := Nat.pow_le_pow_right (by decide) hless
    have hmul := Nat.mul_le_mul (show 4 * x.significand + 2 ≤ 2 ^ 55 - 2 by omega) hpow
    rw [Nat.pow_succ, ← Nat.mul_assoc] at hmul
    omega

theorem mul_pow_le_limit (hx : x.bits.toNat % 2 ^ 63 < 2045 * 2 ^ 52 + (2 ^ 53 - 1)) {k : Nat}
    (h : (Interval.of x).contains k n = true) : n * Nat.pow 10 k ≤ limit := by
  obtain ⟨t, ht⟩ : ∃ t, 2045 = t := ⟨_, rfl⟩
  rw [bits_mod, ht] at hx
  have hhigh := high_mul_le hx
  have hle := (Interval.bounds_of_contains h).2
  have hunit : (Interval.of x).high * (Interval.of x).unitAt k =
      (4 * x.significand + 2) * 2 ^ x.scale := by
    rw [Interval.unitAt, Int.toNat_neg_natCast, Nat.pow_zero, Nat.mul_one]
    rfl
  have hstep : n * Interval.stepAt k = n * 10 ^ k * unitDen := by
    rw [Interval.stepAt, Int.toNat_natCast, Nat.mul_left_comm, Nat.mul_comm]
  rw [hunit, hstep] at hle
  rw [← limit_mul_unitDen ht] at hhigh
  exact Nat.le_of_mul_le_mul_right (Nat.le_trans hle hhigh) unitDen_pos

theorem isSome_scaled (hzero : x.isZero = false)
    (hx : x.bits.toNat % 2 ^ 63 < 2045 * 2 ^ 52 + (2 ^ 53 - 1)) (hn : n ≤ 10 ^ 17)
    (h : (Interval.of x).contains k n = true) :
    ((ofNat? n).bind fun y => scaleByPow10? y k).isSome = true := by
  obtain ⟨y, hy, hsmall⟩ := exists_ofNat?_of_le hn
  rcases Int.lt_or_le k 0 with hk | hk
  · rw [hy]
    exact isSome_scaleByPow10?_of_neg hsmall hk
  · obtain ⟨e, rfl⟩ := Int.eq_ofNat_of_zero_le hk
    obtain ⟨t, ht⟩ : ∃ t, 309 = t := ⟨_, rfl⟩
    have hpos := Interval.pos_of_contains (Interval.low_pos hzero) h
    have hle := mul_pow_le_limit hx h
    have hlt : 10 ^ e < 10 ^ t :=
      Nat.lt_of_le_of_lt (Nat.le_trans (Nat.le_mul_of_pos_left _ hpos) hle) (limit_lt ht)
    have he : e < t := (Nat.pow_lt_pow_iff_right (by decide)).1 hlt
    have hscale := isSome_scale hn (k := e) (by omega) hle
    rw [hy, Option.bind_some] at hscale ⊢
    rw [scaleByPow10?]
    split
    · rfl
    · rw [if_neg (by omega)]
      exact hscale

theorem isSome_floatOf? {negative : Bool} {s : Scaled}
    (h : ((ofNat? s.significand).bind fun y => scaleByPow10? y s.exponent).isSome = true) :
    (floatOf? negative s).isSome = true := by
  obtain ⟨z, hz⟩ := Option.isSome_iff_exists.1 h
  obtain ⟨y, hy, hz⟩ := Option.bind_eq_some_iff.1 hz
  rw [floatOf?, hy, Option.bind_eq_bind, Option.bind_some, hz]
  rfl

/-- The largest finite number, with either sign. -/
theorem isSome_reread?_largest (hx : x.abs = ⟨0x7fefffffffffffff⟩) :
    (Number.float x).reread?.isSome = true := by
  have hboth : ∀ negative : Bool, (Number.float (if negative then
      neg ⟨0x7fefffffffffffff⟩ else ⟨0x7fefffffffffffff⟩)).reread?.isSome = true := by
    decide +kernel
  have hsome := hboth x.isNegative
  rwa [← hx, signed_abs] at hsome

/-- A finite number is read as some number where it is printed. -/
theorem isSome_reread?_float (hx : x.IsFinite) : (Number.float x).reread?.isSome = true := by
  have hfield : x.bits.toNat / 2 ^ 52 % 2048 < 2047 := hx
  by_cases hmax : x.bits.toNat % 2 ^ 63 = 2045 * 2 ^ 52 + (2 ^ 53 - 1)
  · refine isSome_reread?_largest ?_
    rw [Binary64.abs, hmax]
    rfl
  · cases hzero : x.isZero with
    | true =>
      have hdecimal := decimal_parts_of_isZero hzero
      rw [Number.reread?_float_of_exact hx] <;> simp [hdecimal]
    | false =>
      rw [Number.reread?_float]
      exact isSome_floatOf? (isSome_scaled hzero (by omega) (decimal_parts hzero).2
        (contains_parts hzero))

namespace Number

/-- Integers are within 64 bits, and floating-point numbers are finite. -/
def IsValid : Number → Prop
  | .int i => -(2 ^ 63) ≤ i ∧ i < 2 ^ 64
  | .float x => x.IsFinite

/-- Of floating-point numbers, the digits that are printed make a whole number of at most 53 bits,
and it is scaled by at most 22 places. -/
def IsExact : Number → Prop
  | .int i => -(2 ^ 63) ≤ i ∧ i < 2 ^ 64
  | .float x => x.IsFinite ∧ (parts x).decimal.digits < 2 ^ 53 ∧
    (parts x).decimal.exponent.natAbs ≤ 22

instance : DecidablePred IsValid
  | .int _ => inferInstanceAs (Decidable (_ ∧ _))
  | .float x => inferInstanceAs (Decidable x.IsFinite)

instance : DecidablePred IsExact
  | .int _ => inferInstanceAs (Decidable (_ ∧ _))
  | .float _ => inferInstanceAs (Decidable (_ ∧ _ ∧ _))

/-- What a number is read as where it is printed. -/
def reread (n : Number) : Number := n.reread?.getD n

theorem reread?_of_isExact {n : Number} (h : n.IsExact) : n.reread? = some n := by
  cases n with
  | int i => exact reread?_int h.1 h.2
  | float x => exact reread?_float_of_exact h.1 h.2.1 h.2.2

theorem reread_of_isExact {n : Number} (h : n.IsExact) : n.reread = n := by
  rw [reread, reread?_of_isExact h, Option.getD_some]

/-- What is printed is in range. -/
theorem reread?_eq_some {n : Number} (h : n.IsValid) : n.reread? = some n.reread := by
  have hsome : n.reread?.isSome = true := by
    cases n with
    | int i => exact Option.isSome_of_eq_some (reread?_int h.1 h.2)
    | float x => exact isSome_reread?_float h
  obtain ⟨m, hm⟩ := Option.isSome_iff_exists.1 hsome
  rw [reread, hm, Option.getD_some]

end Number

end Json

end ODataGraph
