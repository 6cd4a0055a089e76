import ODataGraph.Json.Basic

/-! The characters that numbers are written with: digits, signs, points and exponent marks. -/

namespace ODataGraph.Decimal

/-- A character of numbers. -/
def IsNumeral (c : Char) : Prop := c.isDigit = true ∨ c ∈ ['-', '+', '.', 'e']

theorem isNumeral_of_mem_natText {n : Nat} {c : Char} (h : c ∈ natText n) : IsNumeral c :=
  .inl (Nat.isDigit_of_mem_toDigits (by decide) (by decide) h)

theorem isNumeral_of_mem_zeros {n : Nat} {c : Char} (h : c ∈ zeros n) : IsNumeral c := by
  rw [(List.mem_replicate.1 h).2]
  exact .inl (by decide)

theorem isNumeral_of_mem_intText {i : Int} {c : Char} (h : c ∈ intText i) :
    IsNumeral c := by
  rw [intText] at h
  split at h
  · rcases List.mem_cons.1 h with rfl | h
    · exact .inr (by decide)
    · exact isNumeral_of_mem_natText h
  · exact isNumeral_of_mem_natText h

theorem isNumeral_of_mem_positional {digits : List Char} {magnitude : Int} {c : Char}
    (hdigits : ∀ c ∈ digits, IsNumeral c) (h : c ∈ positional digits magnitude) :
    IsNumeral c := by
  have hpoint : IsNumeral '.' := .inr (by decide)
  have hzero : IsNumeral '0' := .inl (by decide)
  rw [positional] at h
  split at h
  · simp only [List.mem_append, List.mem_cons, List.not_mem_nil, or_false] at h
    rcases h with ((rfl | rfl) | h) | h
    · exact hzero
    · exact hpoint
    · exact isNumeral_of_mem_zeros h
    · exact hdigits c h
  · dsimp only at h
    split at h
    · simp only [List.mem_append, List.mem_cons, List.not_mem_nil, or_false] at h
      rcases h with (h | h) | rfl | rfl
      · exact hdigits c h
      · exact isNumeral_of_mem_zeros h
      · exact hpoint
      · exact hzero
    · rcases List.mem_append.1 h with h | h
      · exact hdigits c (List.mem_of_mem_take h)
      · rcases List.mem_cons.1 h with rfl | h
        · exact hpoint
        · exact hdigits c (List.mem_of_mem_drop h)

theorem isNumeral_of_mem_scientific {digits : List Char} {magnitude : Int} {c : Char}
    (hdigits : ∀ c ∈ digits, IsNumeral c) (h : c ∈ scientific digits magnitude) :
    IsNumeral c := by
  rw [scientific] at h
  simp only [List.mem_append, List.mem_cons, List.not_mem_nil, or_false] at h
  rcases h with ((h | h) | rfl | rfl) | h
  · exact hdigits c (List.mem_of_mem_take h)
  · split at h
    · cases h
    · rcases List.mem_cons.1 h with rfl | h
      · exact .inr (by decide)
      · exact hdigits c (List.mem_of_mem_drop h)
  · exact .inr (by decide)
  · split <;> exact .inr (by decide)
  · exact isNumeral_of_mem_natText h

theorem isNumeral_of_mem_numberText {n : Json.Number} {c : Char} (h : c ∈ n.text) : IsNumeral c := by
  cases n with
  | int i => exact isNumeral_of_mem_intText h
  | float x =>
    rw [Json.Number.text, text] at h
    rcases List.mem_append.1 h with h | h
    · split at h
      · rw [List.mem_singleton.1 h]
        exact .inr (by decide)
      · cases h
    · split at h
      · simp only [List.mem_cons, List.not_mem_nil, or_false] at h
        rcases h with rfl | rfl | rfl
        · exact .inl (by decide)
        · exact .inr (by decide)
        · exact .inl (by decide)
      · have hdigits : ∀ c ∈ natText (shortest x).digits, IsNumeral c :=
          fun c => isNumeral_of_mem_natText
        rw [Form.write] at h
        split at h
        · exact isNumeral_of_mem_positional hdigits h
        · exact isNumeral_of_mem_scientific hdigits h

end ODataGraph.Decimal
