import Mathlib.Algebra.Group.Int.Defs
import Mathlib.Algebra.Group.Nat.Defs
import Mathlib.Tactic.SplitIfs
import ODataGraph.Decimal.Shortest

/-!
The decimal that a floating-point number is printed as. There always is one of at most seventeen
digits in the rounding interval of the number.
-/

namespace ODataGraph

namespace Binary64

theorem significand_pos {x : Binary64} (h : x.isZero = false) : 0 < x.significand := by
  rw [isZero, beq_eq_false_iff_ne] at h
  rw [significand]
  split
  · rename_i hfield
    rw [exponentField] at hfield
    have h63 : Nat.pow 2 63 = Nat.pow 2 52 * 2048 := by decide
    rw [h63, Nat.mod_mul, hfield, Nat.mul_zero, Nat.add_zero] at h
    exact Nat.pos_of_ne_zero h
  · exact Nat.add_pos_right _ (by decide)

theorem significand_lt (x : Binary64) : x.significand < 2 ^ 53 := by
  have hlt := Nat.mod_lt x.bits.toNat (Nat.two_pow_pos 52)
  rw [significand]
  simp only [Nat.pow_eq]
  split <;> omega

end Binary64

namespace Decimal

theorem unitDen_pos : 0 < unitDen := by
  unfold unitDen
  generalize 1076 = t
  exact Nat.two_pow_pos t

/-! ### Powers of ten -/

/-- Only the difference of two exponents matters. -/
theorem mul_pow_le_iff {m n a b c d : Nat} (h : a + d = c + b) :
    m * 10 ^ a ≤ n * 10 ^ b ↔ m * 10 ^ c ≤ n * 10 ^ d := by
  have hpow : ∀ e, 0 < 10 ^ e := fun e => Nat.pow_pos (by decide)
  rw [← Nat.mul_le_mul_right_iff (hpow d), Nat.mul_assoc, ← Nat.pow_add, h, Nat.pow_add,
    ← Nat.mul_assoc, Nat.mul_right_comm n, Nat.mul_le_mul_right_iff (hpow b)]

theorem lt_pow_digitCount (n : Nat) : n < 10 ^ digitCount n :=
  (Nat.length_toDigits_le_iff (by decide) Nat.length_toDigits_pos).1 (Nat.le_refl _)

theorem pow_digitCount_le {n : Nat} (hn : 0 < n) : 10 ^ (digitCount n - 1) ≤ n := by
  have hpos : 0 < digitCount n := Nat.length_toDigits_pos
  rcases Nat.eq_zero_or_pos (digitCount n - 1) with hone | hmore
  · rw [hone]
    exact hn
  · refine Nat.le_of_not_lt fun hlt => ?_
    have := (Nat.length_toDigits_le_iff (b := 10) (by decide) hmore).2 hlt
    rw [digitCount] at *
    omega

namespace Interval

variable {i : Interval} {k : Int} {c : Nat}

/-! ### The grid -/

/-- A number in units of its scale. -/
def numerator (i : Interval) : Nat := i.value * 2 ^ i.scale

/-- The exponent of the first digit is right. -/
theorem magnitude_spec (hpos : 0 < i.numerator) :
    unitDen * 10 ^ i.magnitude.toNat ≤ i.numerator * 10 ^ (-i.magnitude).toNat ∧
      i.numerator * 10 ^ (-(i.magnitude + 1)).toNat < unitDen * 10 ^ (i.magnitude + 1).toNat := by
  have hunit := unitDen_pos
  have hmagnitude : i.magnitude = if unitDen ≤ i.numerator then
      (digitCount (i.numerator / unitDen) : Int) - 1
    else -(digitCount ((unitDen + i.numerator - 1) / i.numerator - 1) : Int) := rfl
  generalize i.numerator = num at *
  generalize unitDen = unit at *
  have hcount : ∀ n, 0 < digitCount n := fun n => Nat.length_toDigits_pos
  split at hmagnitude
  · rename_i hge
    have hlow := pow_digitCount_le (Nat.div_pos hge hunit)
    have hhigh := lt_pow_digitCount (num / unit)
    have := hcount (num / unit)
    rw [Nat.le_div_iff_mul_le hunit] at hlow
    rw [Nat.div_lt_iff_lt_mul hunit] at hhigh
    generalize digitCount (num / unit) = n at *
    have hexponents : i.magnitude.toNat = n - 1 ∧ (-i.magnitude).toNat = 0 ∧
        (-(i.magnitude + 1)).toNat = 0 ∧ (i.magnitude + 1).toNat = n := by omega
    obtain ⟨h1, h2, h3, h4⟩ := hexponents
    rw [h1, h2, h3, h4, Nat.pow_zero, Nat.mul_one, Nat.mul_comm unit, Nat.mul_comm unit]
    exact ⟨hlow, hhigh⟩
  · rename_i hlt
    have hmul := Nat.div_add_mod' (unit + num - 1) num
    have hmod := Nat.mod_lt (unit + num - 1) hpos
    have hlarge : 2 ≤ (unit + num - 1) / num := (Nat.le_div_iff_mul_le hpos).2 (by omega)
    obtain ⟨q, hq⟩ := Nat.exists_eq_add_of_le' hlarge
    rw [hq, Nat.add_sub_cancel (m := 1)] at hmagnitude
    rw [hq] at hmul
    have hlow := pow_digitCount_le (Nat.succ_pos q)
    have hhigh := lt_pow_digitCount (q + 1)
    have := hcount (q + 1)
    generalize digitCount (q + 1) = n at *
    have hexponents : i.magnitude.toNat = 0 ∧ (-i.magnitude).toNat = n ∧
        (-(i.magnitude + 1)).toNat = n - 1 ∧ (i.magnitude + 1).toNat = 0 := by omega
    obtain ⟨h1, h2, h3, h4⟩ := hexponents
    have hlow := Nat.mul_le_mul_right num hlow
    have hhigh := Nat.mul_le_mul_right num hhigh
    rw [h1, h2, h3, h4, Nat.pow_zero, Nat.mul_one, Nat.mul_comm num, Nat.mul_comm num]
    simp only [Nat.add_mul, Nat.succ_eq_add_one] at hmul hlow hhigh
    omega

/-- A unit on a grid. -/
def unitAt (i : Interval) (k : Int) : Nat := 2 ^ i.scale * 10 ^ (-k).toNat

/-- The step of a grid. -/
def stepAt (k : Int) : Nat := unitDen * 10 ^ k.toNat

theorem unitAt_pos (i : Interval) (k : Int) : 0 < i.unitAt k :=
  Nat.mul_pos (Nat.two_pow_pos _) (Nat.pow_pos (by decide))

theorem stepAt_pos (k : Int) : 0 < stepAt k := Nat.mul_pos unitDen_pos (Nat.pow_pos (by decide))

theorem onGrid_eq (i : Interval) (k : Int) (u c : Nat) :
    i.onGrid k u c = (u * i.unitAt k, c * stepAt k) := by
  rw [onGrid, unitAt, stepAt]
  simp only [Nat.pow_eq]
  split
  · rename_i hk
    have hnegative : (-k).toNat = 0 := by omega
    rw [hnegative, Nat.pow_zero, Nat.mul_one, Nat.mul_assoc, Nat.mul_comm unitDen]
  · have hpositive : k.toNat = 0 := by omega
    rw [hpositive, Nat.pow_zero, Nat.mul_one, Nat.mul_assoc]

/-- A number lies between powers of ten on a grid that begins at its first digits. -/
theorem grid_bounds (hpos : 0 < i.numerator) (n : Nat) :
    10 ^ n * (unitDen * 10 ^ (i.magnitude - n).toNat) ≤
        i.numerator * 10 ^ (-(i.magnitude - n)).toNat ∧
      i.numerator * 10 ^ (-(i.magnitude - n)).toNat <
        10 ^ (n + 1) * (unitDen * 10 ^ (i.magnitude - n).toNat) := by
  obtain ⟨hlow, hhigh⟩ := magnitude_spec hpos
  have hmul : ∀ a b, 10 ^ a * (unitDen * 10 ^ b) = unitDen * 10 ^ (a + b) := fun a b => by
    rw [Nat.mul_left_comm, ← Nat.pow_add]
  rw [hmul, hmul]
  generalize i.magnitude = m at *
  refine ⟨(mul_pow_le_iff (by omega)).1 hlow, ?_⟩
  rw [← Nat.not_le] at hhigh ⊢
  exact mt (mul_pow_le_iff (by omega)).1 hhigh

theorem contains_eq (i : Interval) (k : Int) (c : Nat) : i.contains k c =
    if i.closed then
      decide (i.low * i.unitAt k ≤ c * stepAt k) && decide (c * stepAt k ≤ i.high * i.unitAt k)
    else decide (i.low * i.unitAt k < c * stepAt k) && decide (c * stepAt k < i.high * i.unitAt k)
    := by
  rw [contains, onGrid_eq, onGrid_eq]

/-- The point of a grid at a number or below it. -/
def below (i : Interval) (k : Int) : Nat := i.value * i.unitAt k / stepAt k

/-- A grid with steps that are smaller than an interval has a neighbour of its number there. -/
theorem contains_neighbour (hlow : i.low ≤ i.value) (hhigh : i.value < i.high)
    (hwide : stepAt k + i.low * i.unitAt k < i.high * i.unitAt k) :
    i.contains k (i.below k) = true ∨ i.contains k (i.below k + 1) = true := by
  have hbelow := Nat.div_add_mod' (i.value * i.unitAt k) (stepAt k)
  have hmod := Nat.mod_lt (i.value * i.unitAt k) (stepAt_pos k)
  have hlow := Nat.mul_le_mul_right (i.unitAt k) hlow
  have hhigh := Nat.mul_lt_mul_of_pos_right hhigh (i.unitAt_pos k)
  rw [contains_eq, contains_eq, Nat.succ_mul, below]
  generalize i.value * i.unitAt k / stepAt k * stepAt k = point at *
  cases i.closed <;> simp <;> omega

/-- The neighbour of a number that is chosen on the grid is in the interval. -/
theorem of_point? (h : i.point? k = some c) : i.contains k c = true ∧ c ≤ i.below k + 1 := by
  rw [point?, onGrid_eq, Nat.one_mul] at h
  dsimp only at h
  rw [← below] at h
  split at h
  · rename_i hbelow habove
    obtain rfl := Option.some.inj h
    rw [Binary64.roundDiv, ← below]
    split
    · exact ⟨hbelow, Nat.le_succ _⟩
    · split
      · exact ⟨habove, Nat.le_refl _⟩
      · rcases Nat.mod_two_eq_zero_or_one (i.below k) with hparity | hparity
        · rw [hparity]
          exact ⟨hbelow, Nat.le_succ _⟩
        · rw [hparity]
          exact ⟨habove, Nat.le_refl _⟩
  · rename_i hbelow _
    cases h
    exact ⟨hbelow, Nat.le_succ _⟩
  · rename_i _ habove
    cases h
    exact ⟨habove, Nat.le_refl _⟩
  · cases h

theorem isSome_point? (h : i.contains k (i.below k) = true ∨ i.contains k (i.below k + 1) = true) :
    (i.point? k).isSome = true := by
  rw [point?, onGrid_eq, Nat.one_mul]
  dsimp only
  rw [← below]
  split
  · rfl
  · rfl
  · rfl
  · rename_i hbelow habove
    rw [hbelow, habove] at h
    simp at h

theorem unitAt_numerator (i : Interval) (k : Int) :
    i.numerator * 10 ^ (-k).toNat = i.value * i.unitAt k := by
  rw [numerator, unitAt, Nat.mul_assoc]

theorem below_lt (hpos : 0 < i.numerator) (n : Nat) : i.below (i.magnitude - n) < 10 ^ (n + 1) := by
  have hlt := (grid_bounds hpos n).2
  rw [← stepAt, unitAt_numerator] at hlt
  exact (Nat.div_lt_iff_lt_mul (stepAt_pos _)).2 hlt

theorem numerator_pos {x : Binary64} (hx : x.isZero = false) : 0 < (Interval.of x).numerator :=
  Nat.mul_pos (Nat.mul_pos (by decide) (Binary64.significand_pos hx)) (Nat.two_pow_pos _)

/-- Seventeen digits suffice. -/
theorem isSome_point?_magnitude {x : Binary64} (hx : x.isZero = false) :
    ((Interval.of x).point? ((Interval.of x).magnitude - (16 : Nat))).isSome = true := by
  have hlt := x.significand_lt
  have hpos := numerator_pos hx
  have hstep := (grid_bounds hpos 16).1
  rw [← stepAt, unitAt_numerator] at hstep
  refine isSome_point? (contains_neighbour ?_ ?_ ?_)
  · simp only [Interval.of]
    split <;> omega
  · simp only [Interval.of]
    omega
  · have hunit := (Interval.of x).unitAt_pos ((Interval.of x).magnitude - (16 : Nat))
    generalize (Interval.of x).unitAt _ = unit at *
    generalize stepAt _ = step at *
    simp only [Interval.of] at hstep ⊢
    have hle := Nat.mul_le_mul_right unit hlt
    simp only [Nat.add_mul, Nat.succ_eq_add_one, Nat.mul_assoc, Nat.pow_eq] at hle hstep ⊢
    split_ifs with hfirst
    · rw [hfirst.1] at hstep ⊢
      omega
    · rw [Nat.sub_mul, Nat.mul_assoc]
      omega

/-- A fraction is in the interval. -/
def Holds (i : Interval) (num den : Nat) : Prop :=
  if i.closed then i.low * 2 ^ i.scale * den ≤ num * unitDen ∧
    num * unitDen ≤ i.high * 2 ^ i.scale * den
  else i.low * 2 ^ i.scale * den < num * unitDen ∧ num * unitDen < i.high * 2 ^ i.scale * den

theorem contains_iff : i.contains k c = true ↔ i.Holds (c * 10 ^ k.toNat) (10 ^ (-k).toNat) := by
  have hunit : ∀ u, u * i.unitAt k = u * 2 ^ i.scale * 10 ^ (-k).toNat := fun u =>
    (Nat.mul_assoc ..).symm
  have hstep : c * stepAt k = c * 10 ^ k.toNat * unitDen := by
    rw [stepAt, Nat.mul_left_comm, Nat.mul_comm]
  rw [contains_eq, Holds, hunit, hunit, hstep]
  cases i.closed <;> simp

theorem bounds_of_contains (h : i.contains k c = true) :
    i.low * i.unitAt k ≤ c * stepAt k ∧ c * stepAt k ≤ i.high * i.unitAt k := by
  rw [contains_eq] at h
  split at h
  · exact (Bool.and_eq_true_iff.1 h).imp of_decide_eq_true of_decide_eq_true
  · have hlt := (Bool.and_eq_true_iff.1 h).imp of_decide_eq_true of_decide_eq_true
    exact hlt.imp Nat.le_of_lt Nat.le_of_lt

theorem low_pos {x : Binary64} (h : x.isZero = false) : 0 < (Interval.of x).low := by
  have hpos := Binary64.significand_pos h
  simp only [Interval.of]
  split <;> omega

theorem pos_of_contains (hlow : 0 < i.low) (h : i.contains k c = true) : 0 < c := by
  have hpos := Nat.mul_pos hlow (i.unitAt_pos k)
  exact Nat.pos_of_mul_pos_right (Nat.lt_of_lt_of_le hpos (bounds_of_contains h).1)

end Interval

/-- Two ways to write one decimal, the second with fewer zeros at its end. -/
def Shortest.Shortens (d d' : Shortest) : Prop :=
  ∃ j : Nat, d.digits = d'.digits * 10 ^ j ∧ d'.exponent = d.exponent + j

theorem shortens_dropZeros (fuel : Nat) (d : Shortest) : d.Shortens (dropZeros fuel d) := by
  induction fuel generalizing d with
  | zero => exact ⟨0, by simp [dropZeros]⟩
  | succ fuel ih =>
    rw [dropZeros]
    split
    · rename_i hzero
      obtain ⟨j, hdigits, hexponent⟩ := ih ⟨d.digits / 10, d.exponent + 1⟩
      refine ⟨j + 1, ?_, ?_⟩
      · dsimp only at hdigits
        rw [Nat.pow_succ, ← Nat.mul_assoc, ← hdigits,
          Nat.div_mul_cancel (Nat.dvd_of_mod_eq_zero hzero.1)]
      · dsimp only at hexponent
        omega
    · exact ⟨0, by simp⟩

/-- A number is printed as a decimal of at most seventeen digits in its rounding interval. -/
theorem shortest_spec {x : Binary64} (hx : x.isZero = false) :
    ∃ d : Shortest, (Interval.of x).contains d.exponent d.digits = true ∧ d.digits ≤ 10 ^ 17 ∧
      d.Shortens (shortest x) := by
  have hfound := Interval.isSome_point?_magnitude hx
  have hpos : 0 < (Interval.of x).numerator := Interval.numerator_pos hx
  unfold shortest
  generalize Interval.of x = i at *
  dsimp only
  split
  · rename_i d hd
    obtain ⟨n, hn, hpoint⟩ := List.exists_of_findSome?_eq_some hd
    obtain ⟨c, hc, rfl⟩ := Option.map_eq_some_iff.1 hpoint
    obtain ⟨hcontains, hle⟩ := Interval.of_point? hc
    refine ⟨⟨c, i.magnitude - n⟩, hcontains, ?_, shortens_dropZeros 20 _⟩
    have hbelow := Interval.below_lt hpos n
    have hpow : 10 ^ (n + 1) ≤ 10 ^ 17 :=
      Nat.pow_le_pow_right (by decide) (Nat.succ_le_of_lt (List.mem_range.1 hn))
    dsimp only
    omega
  · rename_i hnone
    have hsixteen := List.findSome?_eq_none_iff.1 hnone 16 (by decide)
    rw [Option.map_eq_none_iff.1 hsixteen] at hfound
    cases hfound

theorem digits_shortest_le {x : Binary64} (hx : x.isZero = false) :
    (shortest x).digits ≤ 10 ^ 17 := by
  obtain ⟨d, _, hle, j, hdigits, _⟩ := shortest_spec hx
  have hpow : 0 < 10 ^ j := Nat.pow_pos (by decide)
  have hmul := Nat.le_mul_of_pos_right (shortest x).digits hpow
  rw [hdigits] at hle
  exact Nat.le_trans hmul hle

theorem shortest_pos {x : Binary64} (hx : x.isZero = false) : 0 < (shortest x).digits := by
  obtain ⟨d, hd, _, j, hdigits, _⟩ := shortest_spec hx
  have hpos := Interval.pos_of_contains (Interval.low_pos hx) hd
  rw [hdigits] at hpos
  exact Nat.pos_of_mul_pos_right hpos

end Decimal

end ODataGraph
