import ODataGraph.Proofs.Decimal.Range
import ODataGraph.Proofs.Json.Content

/-!
Numbers that are read are valid: integers within 64 bits or finite floating-point numbers.
-/

namespace ODataGraph

namespace Binary64

variable {x y : Binary64}

theorem isFinite_of_ofRatio? {negative : Bool} {num den : Nat}
    (h : ofRatio? negative num den = some y) : y.IsFinite := by
  rw [ofRatio?_signed negative rfl] at h
  generalize magnitude _ den = m at h
  split at h
  · rename_i hlt
    cases h
    obtain ⟨sign, hsign, hcases⟩ : ∃ sign, (if negative then 2 ^ 63 else 0) = sign ∧
        (sign = 0 ∨ sign = 2 ^ 63) := by
      cases negative <;> simp
    have hbits : m + sign < 2 ^ 64 := by omega
    rw [hsign, IsFinite, exponentField, Nat.pow_eq, UInt64.toNat_ofNat_of_lt' hbits]
    omega
  · cases h

theorem exponentField_neg (x : Binary64) : x.neg.exponentField = x.exponentField := by
  have htop : (0x8000000000000000 : UInt64).toNat = 2 ^ 63 := rfl
  have hfields : 2048 = 2 ^ 11 := rfl
  have hsign : 2 ^ 63 / 2 ^ 52 % 2 ^ 11 = 0 := by decide
  rw [exponentField, exponentField, neg, Nat.pow_eq, hfields, UInt64.toNat_xor, htop,
    Nat.xor_div_two_pow, Nat.xor_mod_two_pow, hsign, Nat.xor_zero]

end Binary64

namespace Json

open Binary64

theorem isFinite_scaleByPow10? {x y : Binary64} {k : Int} (hx : x.IsFinite)
    (h : scaleByPow10? x k = some y) : y.IsFinite := by
  have hdown : ∀ {x y : Binary64} {n : Nat}, ((pow10? n).bind fun p => x.div? p) = some y →
      y.IsFinite := by
    intro x y n h
    obtain ⟨p, _, h⟩ := Option.bind_eq_some_iff.1 h
    exact isFinite_of_ofRatio? h
  simp only [scaleByPow10?, Option.bind_eq_bind] at h
  split_ifs at h
  · exact Option.some.inj h ▸ hx
  · obtain ⟨p, _, h⟩ := Option.bind_eq_some_iff.1 h
    exact isFinite_of_ofRatio? h
  · exact hdown h
  · obtain ⟨z, _, h⟩ := Option.bind_eq_some_iff.1 h
    exact hdown h
  · cases h
    decide

theorem isValid_of_floatOf? {negative : Bool} {s : Scaled} {n : Number}
    (h : floatOf? negative s = some n) : n.IsValid := by
  obtain ⟨x, hx, h⟩ := Option.bind_eq_some_iff.1 h
  obtain ⟨y, hy, h⟩ := Option.bind_eq_some_iff.1 h
  have hfinite := isFinite_scaleByPow10? (isFinite_of_ofRatio? hx) hy
  cases h
  rw [Number.IsValid]
  split
  · rwa [IsFinite, exponentField_neg]
  · exact hfinite

theorem foldl_wholeDigit_le {s : Scaled} (hs : s.significand ≤ maxSignificand) (ds : List Nat) :
    (ds.foldl Scaled.wholeDigit s).significand ≤ maxSignificand := by
  induction ds generalizing s with
  | nil => exact hs
  | cons d ds ih =>
    refine ih ?_
    rw [Scaled.wholeDigit]
    split
    · exact hs
    · rename_i h
      exact Nat.le_of_not_lt (not_or.1 h).2

/-- A number that has a value has a valid one. -/
theorem NumberLiteral.isValid_of_value? {l : NumberLiteral} {n : Number} (h : l.value? = some n) :
    n.IsValid := by
  have hle := foldl_wholeDigit_le (s := {}) (Nat.zero_le _) l.whole
  have hmax : maxSignificand = 2 ^ 64 - 1 := rfl
  rw [NumberLiteral.value?] at h
  generalize l.whole.foldl Scaled.wholeDigit {} = whole at h hle
  split_ifs at h with _ _ hnegative
  · cases h
    rw [Number.IsValid]
    omega
  · have hlimit : whole.significand ≤ 2 ^ 63 := hnegative.2
    cases h
    rw [Number.IsValid]
    omega
  · exact isValid_of_floatOf? h
  · exact isValid_of_floatOf? h

theorem Denoted.isValid {value : Json} (h : value.Denoted) : ∀ n ∈ value.numbers, n.IsValid := by
  induction h with
  | number h => exact List.forall_mem_singleton.2 (NumberLiteral.isValid_of_value? h)
  | array _ ih =>
    intro n hn
    obtain ⟨v, hv, hn⟩ := mem_numbersOfItems.1 hn
    exact ih v hv n hn
  | object _ _ ih =>
    intro n hn
    obtain ⟨m, hm, hn⟩ := mem_numbersOfMembers.1 hn
    exact ih m hm n hn
  | _ => nofun

end Json

end ODataGraph
