import ODataGraph.Json.Reader
import ODataGraph.Proofs.Decimal.Numeral
import ODataGraph.Proofs.Decimal.Shortest

/-!
The parts of a number as it is printed: a whole part, a fraction and an exponent with a sign, of
which the last two can be missing.
-/

namespace ODataGraph

/-- The parts of a number as it is printed. -/
structure Numeral where
  negative : Bool
  whole : List Char
  fraction : List Char := []
  /-- Whether it is negative, and its digits. -/
  exponent : Option (Bool × List Char) := none

namespace Numeral

def pointText : List Char → List Char
  | [] => []
  | digits => '.' :: digits

def exponentText : Option (Bool × List Char) → List Char
  | none => []
  | some (negative, digits) => 'e' :: (if negative then '-' else '+') :: digits

def text (n : Numeral) : List Char :=
  (if n.negative then ['-'] else []) ++
    (n.whole ++ (pointText n.fraction ++ exponentText n.exponent))

/-- What the parts of a number are for those who read it. -/
def literal (n : Numeral) : Json.NumberLiteral where
  negative := n.negative
  whole := n.whole.map Json.digitValue
  fraction := n.fraction.map Json.digitValue
  exponent := n.exponent.map fun (negative, digits) =>
    (if negative then -1 else 1) * Json.ofDigits (digits.map Json.digitValue)

def AreDigits (cs : List Char) : Prop := ∀ c ∈ cs, c.isDigit = true

/-- There are digits in all parts, and no zero before others. -/
structure WellFormed (n : Numeral) : Prop where
  whole : AreDigits n.whole
  whole_ne_nil : n.whole ≠ []
  whole_of_zero : ∀ cs, n.whole = '0' :: cs → cs = []
  fraction : AreDigits n.fraction
  exponent : ∀ negative digits, n.exponent = some (negative, digits) →
    AreDigits digits ∧ digits ≠ []

end Numeral

theorem Numeral.WellFormed.text_eq_cons {n : Numeral} (h : n.WellFormed) :
    ∃ c cs, n.text = c :: cs ∧ (c = '-' ∨ c.isDigit = true) := by
  rw [text]
  cases n.negative with
  | true => exact ⟨'-', _, rfl, .inl rfl⟩
  | false =>
    obtain ⟨c, cs, hcons⟩ := List.exists_cons_of_ne_nil h.whole_ne_nil
    have hdigit := h.whole c (hcons ▸ List.mem_cons_self)
    rw [hcons]
    exact ⟨c, _, rfl, .inr hdigit⟩

namespace Decimal

open Numeral (AreDigits)

theorem areDigits_natText (n : Nat) : AreDigits (natText n) := fun _ h =>
  Nat.isDigit_of_mem_toDigits (by decide) (by decide) h

theorem areDigits_zero : AreDigits ['0'] := List.forall_mem_singleton.2 (by decide)

theorem areDigits_zeros (n : Nat) : AreDigits (zeros n) := fun c h => by
  rw [(List.mem_replicate.1 h).2]
  decide

theorem natText_ne_nil (n : Nat) : natText n ≠ [] :=
  List.ne_nil_of_length_pos Nat.length_toDigits_pos

/-- Only zero is written with a zero first. -/
theorem natText_of_zero {n : Nat} {cs : List Char} (h : natText n = '0' :: cs) :
    n = 0 ∧ cs = [] := by
  induction n using Nat.strongRecOn generalizing cs with
  | ind n ih =>
    rw [natText, Nat.toDigits_eq_if (by decide)] at h
    split at h
    · rename_i hlt
      obtain ⟨hdigit, hnil⟩ := List.cons.inj h
      have hall : ∀ n < 10, n.digitChar = '0' → n = 0 := by decide
      exact ⟨hall n hlt hdigit, hnil.symm⟩
    · rename_i hge
      have hbefore : ∃ cs', natText (n / 10) = '0' :: cs' := by
        rcases List.append_eq_cons_iff.1 h with ⟨hnil, _⟩ | ⟨cs', hcons, _⟩
        · exact absurd hnil (natText_ne_nil _)
        · exact ⟨cs', hcons⟩
      obtain ⟨cs', hcons⟩ := hbefore
      have hzero := (ih (n / 10) (by omega) hcons).1
      omega

/-- The parts of `positional`. -/
def positionalParts (negative : Bool) (digits : List Char) (magnitude : Int) : Numeral :=
  let whole := magnitude.toNat + 1
  if magnitude < 0 then
    { negative, whole := ['0'], fraction := zeros (-magnitude - 1).toNat ++ digits }
  else if digits.length ≤ whole then
    { negative, whole := digits ++ zeros (whole - digits.length), fraction := ['0'] }
  else { negative, whole := digits.take whole, fraction := digits.drop whole }

/-- The parts of `scientific`. -/
def scientificParts (negative : Bool) (digits : List Char) (magnitude : Int) : Numeral where
  negative
  whole := digits.take 1
  fraction := digits.drop 1
  exponent := some (magnitude < 0, natText magnitude.natAbs)

/-- The parts of a decimal, as `Form.write` gives them. -/
def Form.parts (form : Form) (negative : Bool) (d : Shortest) : Numeral :=
  let digits := natText d.digits
  let magnitude := d.exponent + digits.length - 1
  if form.first ≤ magnitude ∧ magnitude < form.past then positionalParts negative digits magnitude
  else scientificParts negative digits magnitude

def parts (x : Binary64) : Numeral :=
  if x.isZero then { negative := x.isNegative, whole := ['0'], fraction := ['0'] }
  else Form.standard.parts x.isNegative (shortest x)

def intParts (i : Int) : Numeral where
  negative := i < 0
  whole := natText i.natAbs

end Decimal

/-- The parts of a number. -/
def Json.Number.numeral : Json.Number → Numeral
  | .int i => Decimal.intParts i
  | .float x => Decimal.parts x

namespace Decimal

theorem text_positionalParts {digits : List Char} (hdigits : digits ≠ []) (negative : Bool)
    (magnitude : Int) : (positionalParts negative digits magnitude).text =
      (if negative then ['-'] else []) ++ positional digits magnitude := by
  have hpoint : ∀ cs : List Char, cs ≠ [] → Numeral.pointText cs = '.' :: cs := by
    intro cs hcs
    cases cs with
    | nil => exact absurd rfl hcs
    | cons c cs => rfl
  rw [positionalParts, positional]
  dsimp only
  by_cases hbelow : magnitude < 0
  · rw [if_pos hbelow, if_pos hbelow, Numeral.text, hpoint _ (by simp [hdigits])]
    simp [Numeral.exponentText]
  · rw [if_neg hbelow, if_neg hbelow]
    by_cases hlength : digits.length ≤ magnitude.toNat + 1
    · rw [if_pos hlength, if_pos hlength]
      simp [Numeral.text, Numeral.pointText, Numeral.exponentText]
    · rw [if_neg hlength, if_neg hlength, Numeral.text, hpoint _ (by simpa using hlength)]
      simp [Numeral.exponentText]

theorem text_scientificParts (negative : Bool) (digits : List Char) (magnitude : Int) :
    (scientificParts negative digits magnitude).text =
      (if negative then ['-'] else []) ++ scientific digits magnitude := by
  have hpoint : (if digits.length ≤ 1 then [] else '.' :: digits.drop 1) =
      Numeral.pointText (digits.drop 1) := by
    rcases digits with _ | ⟨_, _ | ⟨_, _⟩⟩ <;> rfl
  rw [scientificParts, scientific, hpoint]
  simp [Numeral.text, Numeral.exponentText]

theorem text_parts (x : Binary64) : (parts x).text = text x := by
  rw [parts, text]
  split
  · rfl
  · rw [Form.parts, Form.write]
    split
    · exact text_positionalParts (natText_ne_nil _) _ _
    · exact text_scientificParts _ _ _

theorem wellFormed_positionalParts {n : Nat} (hn : 0 < n) (negative : Bool) (magnitude : Int) :
    (positionalParts negative (natText n) magnitude).WellFormed := by
  have hdigits := areDigits_natText n
  have hne := natText_ne_nil n
  have hzero : ∀ cs, natText n ≠ '0' :: cs := fun cs h => by
    have := (natText_of_zero h).1
    omega
  rw [positionalParts]
  split
  · refine ⟨areDigits_zero, nofun, fun _ h => (List.cons.inj h).2.symm, ?_, nofun⟩
    exact List.forall_mem_append.2 ⟨areDigits_zeros _, hdigits⟩
  · split
    · refine ⟨List.forall_mem_append.2 ⟨hdigits, areDigits_zeros _⟩, by simp [hne], ?_,
        areDigits_zero, nofun⟩
      intro cs h
      rcases List.append_eq_cons_iff.1 h with ⟨hnil, _⟩ | ⟨cs', hcons, rfl⟩
      · exact absurd hnil hne
      · exact absurd hcons (hzero cs')
    · refine ⟨fun c hc => hdigits c (List.mem_of_mem_take hc), by simp [hne], ?_,
        fun c hc => hdigits c (List.mem_of_mem_drop hc), nofun⟩
      intro cs h
      obtain ⟨c, digits, hcons⟩ := List.exists_cons_of_ne_nil hne
      rw [hcons, List.take_succ_cons] at h
      cases h
      exact absurd hcons (hzero digits)

theorem wellFormed_scientificParts (negative : Bool) (n : Nat) (magnitude : Int) :
    (scientificParts negative (natText n) magnitude).WellFormed where
  whole c hc := areDigits_natText n c (List.mem_of_mem_take hc)
  whole_ne_nil := by simp [scientificParts, natText_ne_nil]
  whole_of_zero cs h := by
    have hlength := congrArg List.length h
    simp only [scientificParts, List.length_take, List.length_cons] at hlength
    exact List.eq_nil_of_length_eq_zero (by omega)
  fraction c hc := areDigits_natText n c (List.mem_of_mem_drop hc)
  exponent _ _ h := by
    cases h
    exact ⟨areDigits_natText _, natText_ne_nil _⟩

end Decimal

theorem Json.Number.text_numeral (n : Json.Number) : n.numeral.text = n.text := by
  cases n with
  | int i =>
    rw [numeral, text, Decimal.intParts, Decimal.intText, Numeral.text]
    by_cases hi : i < 0 <;> simp [hi, Numeral.pointText, Numeral.exponentText]
  | float x => exact Decimal.text_parts x

theorem Json.Number.wellFormed_numeral (n : Json.Number) : n.numeral.WellFormed := by
  cases n with
  | int i =>
    exact ⟨Decimal.areDigits_natText _, Decimal.natText_ne_nil _,
      fun _ h => (Decimal.natText_of_zero h).2, nofun, nofun⟩
  | float x =>
    rw [numeral, Decimal.parts]
    split
    · exact ⟨Decimal.areDigits_zero, nofun, fun _ h => (List.cons.inj h).2.symm,
        Decimal.areDigits_zero, nofun⟩
    · rename_i hx
      rw [Decimal.Form.parts]
      split
      · exact Decimal.wellFormed_positionalParts
          (Decimal.shortest_pos (Bool.not_eq_true _ ▸ hx)) _ _
      · exact Decimal.wellFormed_scientificParts _ _ _

end ODataGraph
