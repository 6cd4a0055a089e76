import ODataGraph.Proofs.Decimal.Notation
import ODataGraph.Proofs.Graphql.Token

/-!
Reading numbers where they are printed. A printed number has a whole part, and may have a fraction
and an exponent with a sign; whatever follows it but is none of its characters is left.
-/

namespace ODataGraph

namespace Graphql

open Numeral (pointText exponentText AreDigits)

theorem isNameChar_of_isDigit {c : Char} (h : c.isDigit = true) : isNameChar c = true := by
  rw [isNameChar, h, Bool.or_true]

theorem Ends.stops_isDigit {rest : List Char} (h : Ends rest) : Stops Char.isDigit rest := by
  intro c hc
  rw [← Bool.not_eq_true]
  intro hdigit
  have hname := (h c hc).1
  rw [isNameChar_of_isDigit hdigit] at hname
  cases hname

theorem readDigits_append {cs rest : List Char} (hcs : AreDigits cs)
    (hrest : Stops Char.isDigit rest) :
    Json.readDigits (cs ++ rest) = (cs.map Json.digitValue, rest) := by
  rw [Json.readDigits, takeWhile_append hcs hrest, dropWhile_append hcs hrest]

theorem readWhole_append {cs rest : List Char} (hcs : AreDigits cs) (hne : cs ≠ [])
    (hzero : ∀ cs', cs = '0' :: cs' → cs' = []) (hrest : Stops Char.isDigit rest) :
    readWhole (cs ++ rest) = some (cs.map Json.digitValue, rest) := by
  have hdigits := readDigits_append hcs hrest
  cases cs with
  | nil => exact absurd rfl hne
  | cons c cs =>
    by_cases hc : c = '0'
    · subst hc
      rw [hzero cs rfl]
      rfl
    · rw [List.cons_append] at hdigits ⊢
      rw [readWhole.eq_2 _ (fun _ heq => hc (List.cons.inj heq).1), hdigits]
      rfl

theorem readFraction_append {cs rest : List Char} (hcs : AreDigits cs)
    (hrest : Stops Char.isDigit rest) (hpoint : rest.head? ≠ some '.') :
    Json.readFraction (pointText cs ++ rest) = some (cs.map Json.digitValue, rest) := by
  cases cs with
  | nil =>
    have hnone : ∀ cs, rest ≠ '.' :: cs := by
      rintro cs rfl
      exact hpoint rfl
    exact Json.readFraction.eq_2 rest hnone
  | cons c cs =>
    have hdigits := readDigits_append hcs hrest
    rw [pointText, List.cons_append, Json.readFraction, hdigits]
    · rfl
    · exact List.cons_ne_nil _ _

theorem readExponent_append {exponent : Option (Bool × List Char)} {rest : List Char}
    (hexponent : ∀ negative digits, exponent = some (negative, digits) →
      AreDigits digits ∧ digits ≠ []) (hrest : Ends rest) :
    Json.readExponent (exponentText exponent ++ rest) =
      some (exponent.map fun (negative, digits) =>
        (if negative then -1 else 1) * Json.ofDigits (digits.map Json.digitValue), rest) := by
  cases exponent with
  | none =>
    cases rest with
    | nil => rfl
    | cons c rest =>
      have hc := (hrest c rfl).1
      have hmark : ¬ (c = 'e' ∨ c = 'E') := by
        rintro (rfl | rfl) <;> cases hc
      rw [exponentText, List.nil_append, Json.readExponent.eq_def]
      exact if_neg hmark
  | some e =>
    obtain ⟨negative, digits⟩ := e
    obtain ⟨hdigits, hne⟩ := hexponent negative digits rfl
    have hread := readDigits_append hdigits hrest.stops_isDigit
    cases negative <;> simp [exponentText, Json.readExponent, hread, hne]

theorem stops_exponentText {exponent : Option (Bool × List Char)} {rest : List Char}
    (hrest : Ends rest) : Stops Char.isDigit (exponentText exponent ++ rest) := by
  cases exponent with
  | none => exact hrest.stops_isDigit
  | some e => exact stops_cons (by decide) _

theorem stops_pointText {fraction : List Char} {rest : List Char}
    (hrest : Stops Char.isDigit rest) : Stops Char.isDigit (pointText fraction ++ rest) := by
  cases fraction with
  | nil => exact hrest
  | cons c cs => exact stops_cons (by decide) _

theorem head?_exponentText_ne {exponent : Option (Bool × List Char)} {rest : List Char}
    (hrest : Ends rest) : (exponentText exponent ++ rest).head? ≠ some '.' := by
  cases exponent with
  | none => exact fun hpoint => (hrest _ hpoint).2.1 rfl
  | some e => nofun

/-- A printed number is read to its end. -/
theorem readNumber_append {n : Numeral} (hn : n.WellFormed) {rest : List Char} (hrest : Ends rest) :
    readNumber (n.text ++ rest) = some (n.literal, rest) := by
  have hstops : Stops Char.isDigit (exponentText n.exponent ++ rest) := stops_exponentText hrest
  have hpoint : Stops Char.isDigit (pointText n.fraction ++ (exponentText n.exponent ++ rest)) :=
    stops_pointText hstops
  have hwhole := readWhole_append hn.whole hn.whole_ne_nil hn.whole_of_zero hpoint
  have hfraction := readFraction_append hn.fraction hstops (head?_exponentText_ne hrest)
  have hexponent := readExponent_append hn.exponent hrest
  have hend : ¬ rest.head?.any isNameStart = true := by
    intro hstart
    obtain ⟨c, hc, hname⟩ := (Option.any_eq_true ..).1 hstart
    have hnone := (hrest c hc).1
    rw [isNameChar_of_isNameStart hname] at hnone
    cases hnone
  have hunsigned : ∀ cs, n.whole ++ (pointText n.fraction ++ (exponentText n.exponent ++ rest)) ≠
      '-' :: cs := by
    intro cs heq
    obtain ⟨c, whole, hcons⟩ := List.exists_cons_of_ne_nil hn.whole_ne_nil
    rw [hcons] at heq
    have hdigit : c.isDigit = true := hn.whole c (hcons ▸ List.mem_cons_self)
    cases heq
    cases hdigit
  rw [Numeral.text, List.append_assoc, List.append_assoc, List.append_assoc, Numeral.literal]
  cases n.negative with
  | true =>
    rw [if_pos rfl, List.singleton_append, readNumber, hwhole]
    simp [hfraction, hexponent, hend]
  | false =>
    rw [if_neg (by decide), List.nil_append, readNumber.eq_2 _ hunsigned, hwhole]
    simp [hfraction, hexponent, hend]

end Graphql

namespace Json.Number

/-- What a number is read as where it is printed, if that is in range. -/
def reread? (n : Number) : Option Number :=
  (Graphql.readNumber n.text).bind fun (literal, _) => literal.value?

theorem reread?_eq (n : Number) : n.reread? = n.numeral.literal.value? := by
  have hread := Graphql.readNumber_append n.wellFormed_numeral (fun _ => nofun : Graphql.Ends [])
  rw [List.append_nil, text_numeral] at hread
  rw [reread?, hread]
  rfl

end Json.Number

end ODataGraph
