import Mathlib
import UtxoSpend.Bytes.Hex
import UtxoSpend.Text.Blank

/-!
# Hexadecimal text is read back

A digit is an ASCII character with its value, and no blank.  Main statement: the digits of a byte
string are read as the byte string.
-/

namespace UtxoSpend.Hex

/-! ## Digits -/

theorem utf8EncodeChar_hexDigit {n : Nat} (h : n < 16) :
    ∃ c, String.utf8EncodeChar (Text.hexDigit n) = [c] ∧ digitValue? c = some n := by
  have htable : ∀ n : Fin 16, ∃ c, String.utf8EncodeChar (Text.hexDigit n) = [c] ∧
      digitValue? c = some n.val := by decide
  exact htable ⟨n, h⟩

theorem exists_eq_hexDigit {bs : Bytes} {c : Char} (h : c ∈ digits bs) :
    ∃ n : Fin 16, c = Text.hexDigit n := by
  rw [digits, List.mem_flatMap] at h
  obtain ⟨b, -, hc⟩ := h
  have hlt := b.toNat_lt
  rw [byteDigits, List.mem_pair] at hc
  rcases hc with rfl | rfl
  · exact ⟨⟨b.toNat / 16, by omega⟩, rfl⟩
  · exact ⟨⟨b.toNat % 16, by omega⟩, rfl⟩

theorem isBlank_of_mem_digits {bs : Bytes} {c : Char} (h : c ∈ digits bs) :
    Text.isBlank c = false := by
  obtain ⟨n, rfl⟩ := exists_eq_hexDigit h
  have htable : ∀ n : Fin 16, Text.isBlank (Text.hexDigit n) = false := by decide
  exact htable n

theorem digits_eq_nil_iff {bs : Bytes} : digits bs = [] ↔ bs = [] := by
  cases bs with
  | nil => simp [digits]
  | cons b bs => simp [digits, byteDigits]

/-! ## Reading -/

theorem utf8_byteDigits (b : UInt8) : ∃ hi lo, Text.utf8 (byteDigits b) = [hi, lo] ∧
    digitValue? hi = some (b.toNat / 16) ∧ digitValue? lo = some (b.toNat % 16) := by
  have hlt := b.toNat_lt
  obtain ⟨hi, hhi, hupper⟩ := utf8EncodeChar_hexDigit (n := b.toNat / 16) (by omega)
  obtain ⟨lo, hlo, hlower⟩ := utf8EncodeChar_hexDigit (n := b.toNat % 16) (by omega)
  refine ⟨hi, lo, ?_, hupper, hlower⟩
  rw [Text.utf8, byteDigits, List.flatMap_cons, List.flatMap_singleton, hhi, hlo]
  rfl

theorem utf8_digits_cons (b : UInt8) (bs : Bytes) :
    Text.utf8 (digits (b :: bs)) = Text.utf8 (byteDigits b) ++ Text.utf8 (digits bs) := by
  rw [Text.utf8, digits, List.flatMap_cons, List.flatMap_append]
  rfl

theorem length_utf8_digits (bs : Bytes) : (Text.utf8 (digits bs)).length = 2 * bs.length := by
  induction bs with
  | nil => rfl
  | cons b bs ih =>
      obtain ⟨hi, lo, htext, -, -⟩ := utf8_byteDigits b
      simp only [utf8_digits_cons, htext, List.length_append, List.length_cons, List.length_nil, ih]
      omega

theorem decodeFrom_byteDigits (b : UInt8) (position : Nat) (acc rest : Bytes) :
    decodeFrom position acc (Text.utf8 (byteDigits b) ++ rest) =
      decodeFrom (position + 2) (b :: acc) rest := by
  obtain ⟨hi, lo, htext, hupper, hlower⟩ := utf8_byteDigits b
  have hbyte : UInt8.ofNat (16 * (b.toNat / 16) + b.toNat % 16) = b := by
    rw [Nat.div_add_mod, UInt8.ofNat_toNat]
  rw [htext, List.cons_append, List.cons_append, List.nil_append, decodeFrom, digitAt, digitAt,
    hupper, hlower]
  dsimp only
  rw [hbyte]

theorem decodeFrom_digits (bs : Bytes) (position : Nat) (acc : Bytes) :
    decodeFrom position acc (Text.utf8 (digits bs)) = .ok (acc.reverse ++ bs) := by
  induction bs generalizing position acc with
  | nil => simp [digits, Text.utf8, decodeFrom]
  | cons b bs ih =>
      rw [utf8_digits_cons, decodeFrom_byteDigits, ih, List.reverse_cons, List.append_assoc,
        List.singleton_append]

/-- What is written is read back. -/
theorem decodeChars_digits (bs : Bytes) : decodeChars (digits bs) = .ok bs := by
  have heven : ¬(Text.utf8 (digits bs)).length % 2 = 1 := by
    rw [length_utf8_digits]
    omega
  rw [decodeChars, decodeUtf8, if_neg heven, decodeFrom_digits]
  rfl

end UtxoSpend.Hex
