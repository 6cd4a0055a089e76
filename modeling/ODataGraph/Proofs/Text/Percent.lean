import Mathlib.Data.List.Basic
import ODataGraph.Json.Reader
import ODataGraph.Text.Percent

/-!
Percent-decoding undoes percent-encoding. An encoded text has no characters but the kept ones and
percent signs, so that any other character can separate encoded texts.
-/

namespace ODataGraph.Text

namespace Utf8

theorem toList_loop (bytes : ByteArray) (index : Nat) (read : List UInt8) :
    ByteArray.toList.loop bytes index read = read.reverse ++ bytes.data.toList.drop index := by
  induction index, read using ByteArray.toList.loop.induct bytes with
  | case1 index read hindex ih =>
    have hlength : index < bytes.data.toList.length := hindex
    have hbyte : bytes.get! index = bytes.data.toList[index] := getElem!_pos bytes.data index hindex
    rw [ByteArray.toList.loop, if_pos hindex, ih, List.drop_eq_getElem_cons hlength, hbyte,
      List.reverse_cons, List.append_assoc, List.singleton_append]
  | case2 index read hindex =>
    have hlength : bytes.data.toList.length ≤ index := Nat.le_of_not_lt hindex
    rw [ByteArray.toList.loop, if_neg hindex, List.drop_of_length_le hlength, List.append_nil]

theorem encode_eq (s : String) : encode s = s.toByteArray.data.toList := by
  rw [encode, ByteArray.toList, toList_loop, List.reverse_nil, List.nil_append, List.drop_zero]
  rfl

theorem encode_append (s t : String) : encode (s ++ t) = encode s ++ encode t := by
  simp only [encode_eq, String.toByteArray_append, ByteArray.data_append, Array.toList_append]

/-- The bytes of a text are a text again. -/
theorem fromUTF8?_encode (s : String) : String.fromUTF8? ⟨(encode s).toArray⟩ = some s := by
  rw [encode_eq, Array.toArray_toList, String.fromUTF8?]
  exact dif_pos s.isValidUTF8

/-- Texts are encoded character by character. -/
theorem encode_eq_flatMap (s : String) : encode s = s.toList.flatMap String.utf8EncodeChar := by
  have hbytes : s.toByteArray = s.toList.utf8Encode := by
    rw [← String.toByteArray_ofList, String.ofList_toList]
  rw [encode_eq, hbytes, List.utf8Encode, List.data_toByteArray, List.toList_toArray]

theorem eq_of_fromUTF8? {bytes : List UInt8} {s : String}
    (h : String.fromUTF8? ⟨bytes.toArray⟩ = some s) : bytes = encode s := by
  rw [String.fromUTF8?] at h
  split at h
  · cases h
    rw [encode_eq]
    rfl
  · cases h

end Utf8

namespace Percent

/-- The bytes of a text in which a percent sign and two hexadecimal digits are a byte. -/
def decodeBytes : List Char → Option (List UInt8)
  | [] => some []
  | '%' :: high :: low :: rest => do
    let high ← Json.hexValue? high
    let low ← Json.hexValue? low
    return UInt8.ofNat (high * 16 + low) :: (← decodeBytes rest)
  | c :: rest => if c = '%' then none else (decodeBytes rest).map (String.utf8EncodeChar c ++ ·)

/-- The text that is encoded, if every percent sign has its digits and the bytes are UTF-8. -/
def decode? (s : String) : Option String :=
  (decodeBytes s.toList).bind fun bytes => String.fromUTF8? ⟨bytes.toArray⟩

theorem decodeBytes_cons {c : Char} (h : c ≠ '%') (rest : List Char) :
    decodeBytes (c :: rest) = (decodeBytes rest).map (String.utf8EncodeChar c ++ ·) := by
  rw [decodeBytes, if_neg h]
  rintro _ _ _ rfl
  exact absurd rfl h

theorem isKept_hexDigit : ∀ n < 16, isKept (hexDigit n) = true := by decide

theorem hexValue?_hexDigit : ∀ n < 16, Json.hexValue? (hexDigit n) = some n := by decide

theorem utf8EncodeChar_ofNat {b : UInt8} (h : b.toNat < 0x80) :
    String.utf8EncodeChar (Char.ofNat b.toNat) = [b] := by
  have hvalid : b.toNat.isValidChar := .inl (by omega)
  have hvalue : (Char.ofNat b.toNat).val.toNat = b.toNat := by
    rw [Char.ofNat, dif_pos hvalid]
    rfl
  rw [String.utf8EncodeChar]
  simp only [hvalue]
  rw [if_pos (by omega), UInt8.ofNat_toNat]

theorem encode_append (s t : String) : encode (s ++ t) = encode s ++ encode t := by
  rw [encode, Utf8.encode_append, List.flatMap_append, String.ofList_append]
  rfl

theorem decodeBytes_encodeByte (b : UInt8) (rest : List Char) :
    decodeBytes (encodeByte b ++ rest) = (decodeBytes rest).map (b :: ·) := by
  have hbyte : b.toNat < 256 := b.toNat_lt_size
  rw [encodeByte]
  split
  · rename_i hkept
    have hne : Char.ofNat b.toNat ≠ '%' := by
      intro heq
      rw [heq] at hkept
      exact absurd hkept.2 (by decide)
    rw [List.singleton_append, decodeBytes_cons hne, utf8EncodeChar_ofNat hkept.1]
    rfl
  · have hhigh := hexValue?_hexDigit (b.toNat / 16) (by omega)
    have hlow := hexValue?_hexDigit (b.toNat % 16) (by omega)
    have hvalue : b.toNat / 16 * 16 + b.toNat % 16 = b.toNat := by omega
    simp only [List.cons_append, List.nil_append, decodeBytes, hhigh, hlow, Option.bind_eq_bind,
      Option.bind_some, hvalue, UInt8.ofNat_toNat]
    cases decodeBytes rest <;> rfl

theorem decodeBytes_flatMap_encodeByte (bytes : List UInt8) :
    decodeBytes (bytes.flatMap encodeByte) = some bytes := by
  induction bytes with
  | nil => rfl
  | cons b rest ih => rw [List.flatMap_cons, decodeBytes_encodeByte, ih, Option.map_some]

/-- Decoding undoes encoding. -/
@[simp] theorem decode?_encode (s : String) : decode? (encode s) = some s := by
  rw [decode?, encode, String.toList_ofList, decodeBytes_flatMap_encodeByte, Option.bind_some,
    Utf8.fromUTF8?_encode]

/-- A dollar sign in front stands for itself. -/
theorem decode?_dollar_encode (s : String) : decode? ("$" ++ encode s) = some ("$" ++ s) := by
  have hbytes : Utf8.encode "$" = String.utf8EncodeChar '$' := (Utf8.encode_eq "$").trans rfl
  have hdecode : decodeBytes ("$" ++ encode s).toList = some (Utf8.encode ("$" ++ s)) := by
    have hdollar : '$' ≠ '%' := by decide
    have hcons := decodeBytes_cons hdollar ((Utf8.encode s).flatMap encodeByte)
    rw [decodeBytes_flatMap_encodeByte, Option.map_some] at hcons
    simp only [String.toList_append, encode, String.toList_ofList, Utf8.encode_append, hbytes]
    exact hcons
  rw [decode?, hdecode, Option.bind_some, Utf8.fromUTF8?_encode]

theorem eq_or_isKept_of_mem_encode {s : String} {c : Char} (h : c ∈ (encode s).toList) :
    c = '%' ∨ isKept c = true := by
  rw [encode, String.toList_ofList, List.mem_flatMap] at h
  obtain ⟨b, _, hc⟩ := h
  have hbyte : b.toNat < 256 := b.toNat_lt_size
  rw [encodeByte] at hc
  split at hc
  · rename_i hkept
    rw [List.mem_singleton.1 hc]
    exact .inr hkept.2
  · simp only [List.mem_cons, List.not_mem_nil, or_false] at hc
    rcases hc with rfl | rfl | rfl
    · exact .inl rfl
    · exact .inr (isKept_hexDigit _ (by omega))
    · exact .inr (isKept_hexDigit _ (by omega))

/-- A character that is not kept separates encoded texts. -/
theorem not_mem_encode {c : Char} (h : c ≠ '%') (hkept : isKept c = false) (s : String) :
    c ∉ (encode s).toList := by
  intro hc
  rcases eq_or_isKept_of_mem_encode hc with heq | hyes
  · exact h heq
  · rw [hkept] at hyes
    cases hyes

theorem le_of_isAlphanum {c : Char} (h : c.isAlphanum = true) : c ≤ 'z' := by
  rcases Bool.or_eq_true_iff.1 h with halpha | hdigit
  · rcases Bool.or_eq_true_iff.1 halpha with hupper | hlower
    · exact Char.le_trans (of_decide_eq_true hupper).2 (by decide)
    · exact of_decide_eq_true (Bool.and_eq_true_iff.1 hlower).2
  · exact Char.le_trans (of_decide_eq_true (Bool.and_eq_true_iff.1 hdigit).2) (by decide)

theorem toNat_lt_of_isKept {c : Char} (h : isKept c = true) : c.toNat < 0x80 := by
  simp only [isKept, Bool.or_eq_true, beq_iff_eq] at h
  rcases h with ((((h | rfl) | rfl) | rfl) | rfl) | rfl
  · exact Nat.lt_of_le_of_lt (UInt32.le_iff_toNat_le.1 (le_of_isAlphanum h)) (by decide)
  all_goals decide

theorem utf8EncodeChar_of_lt {c : Char} (h : c.toNat < 0x80) :
    String.utf8EncodeChar c = [UInt8.ofNat c.toNat] := by
  rw [String.utf8EncodeChar]
  exact if_pos (Nat.le_of_lt_succ h)

/-- Kept characters stand for themselves. -/
theorem encode_eq_self {s : String} (h : ∀ c ∈ s.toList, isKept c = true) : encode s = s := by
  have hchar : ∀ c ∈ s.toList, (String.utf8EncodeChar c).flatMap encodeByte = [c] := by
    intro c hc
    have hlt := toNat_lt_of_isKept (h c hc)
    have hnat : (UInt8.ofNat c.toNat).toNat = c.toNat :=
      UInt8.toNat_ofNat_of_lt' (Nat.lt_trans hlt (by decide))
    rw [utf8EncodeChar_of_lt hlt, List.flatMap_singleton, encodeByte, hnat, Char.ofNat_toNat]
    exact if_pos ⟨hlt, h c hc⟩
  rw [encode, Utf8.encode_eq_flatMap, List.flatMap_assoc]
  rw [List.flatMap_congr hchar, List.flatMap_singleton', String.ofList_toList]

/-- Without percent signs nothing is decoded. -/
theorem decodeBytes_of_not_mem {cs : List Char} (h : '%' ∉ cs) :
    decodeBytes cs = some (cs.flatMap String.utf8EncodeChar) := by
  induction cs with
  | nil => rfl
  | cons c rest ih =>
    rw [List.mem_cons, not_or] at h
    rw [decodeBytes_cons (Ne.symm h.1), ih h.2]
    rfl

/-- A percent sign makes its two digits one byte with it. -/
theorem length_decodeBytes {cs : List Char} {bytes : List UInt8} (h : decodeBytes cs = some bytes) :
    bytes.length ≤ (cs.flatMap String.utf8EncodeChar).length ∧
      ('%' ∈ cs → bytes.length < (cs.flatMap String.utf8EncodeChar).length) := by
  have hpos : ∀ c, 0 < (String.utf8EncodeChar c).length := by
    intro c
    rw [String.length_utf8EncodeChar]
    exact c.utf8Size_pos
  fun_induction decodeBytes cs generalizing bytes with
  | case1 =>
    cases h
    exact ⟨Nat.le_refl _, nofun⟩
  | case2 high low rest ih =>
    simp only [Option.bind_eq_bind, Option.bind_eq_some_iff] at h
    obtain ⟨_, _, _, _, decoded, hrest, h⟩ := h
    cases h
    have hle := (ih hrest).1
    have hhigh := hpos high
    have hlow := hpos low
    have hsign : (String.utf8EncodeChar '%').length = 1 := rfl
    simp only [List.flatMap_cons, List.length_append, List.length_cons, hsign]
    omega
  | case3 => cases h
  | case4 c rest _ hc ih =>
    obtain ⟨decoded, hrest, rfl⟩ := Option.map_eq_some_iff.1 h
    obtain ⟨hle, hlt⟩ := ih hrest
    rw [List.flatMap_cons, List.length_append, List.length_append, List.mem_cons]
    refine ⟨by omega, fun hmem => ?_⟩
    have hlt := hlt (hmem.resolve_left (Ne.symm hc))
    omega

theorem decode?_eq_self_iff {s : String} : decode? s = some s ↔ '%' ∉ s.toList := by
  constructor
  · intro h hmem
    obtain ⟨bytes, hbytes, htext⟩ := Option.bind_eq_some_iff.1 h
    have hlt := (length_decodeBytes hbytes).2 hmem
    rw [Utf8.eq_of_fromUTF8? htext, Utf8.encode_eq_flatMap] at hlt
    exact Nat.lt_irrefl _ hlt
  · intro h
    rw [decode?, decodeBytes_of_not_mem h, Option.bind_some, ← Utf8.encode_eq_flatMap,
      Utf8.fromUTF8?_encode]

theorem encode_eq_self_iff {s : String} : encode s = s ↔ ∀ c ∈ s.toList, isKept c = true := by
  refine ⟨fun h c hc => ?_, encode_eq_self⟩
  have hdecode := decode?_encode s
  rw [h, decode?_eq_self_iff] at hdecode
  rw [← h] at hc
  rcases eq_or_isKept_of_mem_encode hc with rfl | hkept
  · rw [h] at hc
    exact absurd hc hdecode
  · exact hkept

end Percent

end ODataGraph.Text
