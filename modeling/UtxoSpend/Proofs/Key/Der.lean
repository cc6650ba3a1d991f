import Mathlib
import UtxoSpend.Key.Der
import UtxoSpend.Proofs.Bytes.BigEndian

/-!
# Signatures survive being written

Main statement: a signature in range reads back from its tagged form, with `s` in its lower half.
-/

namespace UtxoSpend.Der

/-! ## One integer -/

theorem canonical_eq (v : ByteVector 32) :
    canonical v =
      match Bytes.dropZeros v.bytes with
      | [] => [0]
      | b :: r => if b &&& 0x80 ≠ 0 then 0 :: b :: r else b :: r := by
  rw [canonical]
  cases Bytes.dropZeros v.bytes with
  | nil => rfl
  | cons b r => rfl

theorem dropZeros_canonical (v : ByteVector 32) :
    Bytes.dropZeros (canonical v) = Bytes.dropZeros v.bytes := by
  rw [canonical_eq]
  cases h : Bytes.dropZeros v.bytes with
  | nil => rfl
  | cons b r =>
      have hb := Bytes.head_ne_zero_of_dropZeros h
      dsimp only
      split_ifs
      · rw [Bytes.dropZeros_zero_cons, Bytes.dropZeros_cons_of_ne hb]
      · rw [Bytes.dropZeros_cons_of_ne hb]

theorem length_canonical_pos (v : ByteVector 32) : 0 < (canonical v).length := by
  rw [canonical_eq]
  cases Bytes.dropZeros v.bytes with
  | nil => decide
  | cons b r =>
      dsimp only
      split_ifs <;> simp

theorem length_canonical_le (v : ByteVector 32) : (canonical v).length ≤ 33 := by
  have hle := Bytes.length_dropZeros_le v.bytes
  rw [v.length_eq] at hle
  rw [canonical_eq]
  cases h : Bytes.dropZeros v.bytes with
  | nil => decide
  | cons b r =>
      rw [h, List.length_cons] at hle
      dsimp only
      split_ifs
      · simp only [List.length_cons]
        omega
      · simp only [List.length_cons]
        omega

theorem toScalar_canonical (v : ByteVector 32) : toScalar (canonical v) = .ok v := by
  have hle := Bytes.length_dropZeros_le v.bytes
  rw [v.length_eq] at hle
  have hpad := Bytes.padLeft_dropZeros v.bytes
  rw [v.length_eq] at hpad
  have hshort : (Bytes.dropZeros (canonical v)).length ≤ 32 := by
    rw [dropZeros_canonical]
    exact hle
  rw [toScalar, dif_pos hshort]
  congr 1
  ext1
  change Bytes.padLeft 32 (Bytes.dropZeros (canonical v)) = v.bytes
  rw [dropZeros_canonical, hpad]

theorem readInteger_encodeInteger (part : SignaturePart) {body : Bytes} (rest : Bytes)
    (hpos : 0 < body.length) (hlt : body.length < 256) :
    readInteger part (encodeInteger body ++ rest) = .ok (body, rest) := by
  have hsize : (UInt8.ofNat body.length).toNat = body.length := UInt8.toNat_ofNat_of_lt' hlt
  have hfits : body.length ≠ 0 ∧ body.length ≤ (body ++ rest).length := by
    rw [List.length_append]
    omega
  rw [encodeInteger, List.cons_append, List.cons_append, readInteger, if_pos rfl, hsize,
    if_pos hfits, List.take_left, List.drop_left]

/-! ## The pair -/

def InRange (sig : Signature) : Prop :=
  0 < sig.r.toNat ∧ sig.r.toNat < Secp256k1.order ∧ 0 < sig.s.toNat ∧
    sig.s.toNat < Secp256k1.order

theorem checkRange_of_inRange {sig : Signature} (h : InRange sig) : checkRange sig = .ok sig := by
  obtain ⟨hr, hrorder, hs, hsorder⟩ := h
  rw [checkRange, if_neg (by omega), if_neg (by omega)]

theorem readBody_encode {sig : Signature} (h : InRange sig) :
    readBody (encodeInteger (canonical sig.r) ++ encodeInteger (canonical sig.s)) = .ok sig := by
  have hrlength := length_canonical_le sig.r
  have hslength := length_canonical_le sig.s
  have hr := readInteger_encodeInteger .r (encodeInteger (canonical sig.s))
    (length_canonical_pos sig.r) (by omega)
  have hs := readInteger_encodeInteger .s [] (length_canonical_pos sig.s) (by omega)
  have hrest : ¬(encodeInteger (canonical sig.s)).length < 3 := by
    have hpos := length_canonical_pos sig.s
    simp only [encodeInteger, List.length_cons]
    omega
  rw [List.append_nil] at hs
  rw [readBody, hr]
  simp only [bind, Except.bind, if_neg hrest, hs, toScalar_canonical]
  exact checkRange_of_inRange h

theorem encode_eq (sig : Signature) :
    encode sig =
      sequenceTag :: UInt8.ofNat (4 + (canonical sig.r).length + (canonical sig.normalS).length) ::
        (encodeInteger (canonical sig.r) ++ encodeInteger (canonical sig.normalS)) := rfl

theorem length_encode (sig : Signature) :
    (encode sig).length = 6 + (canonical sig.r).length + (canonical sig.normalS).length := by
  simp only [encode_eq, encodeInteger, List.length_cons, List.length_append]
  omega

theorem length_encode_le (sig : Signature) : (encode sig).length ≤ 72 := by
  have hr := length_canonical_le sig.r
  have hs := length_canonical_le sig.normalS
  rw [length_encode]
  omega

theorem decode_encode {sig : Signature} (h : InRange sig) (hlow : sig.isLowS = true) :
    decode (encode sig) = .ok sig := by
  have hnormal : sig.normalS = sig.s := by rw [Signature.normalS, if_pos hlow]
  have hr := length_canonical_le sig.r
  have hs := length_canonical_le sig.s
  have hrpos := length_canonical_pos sig.r
  have hspos := length_canonical_pos sig.s
  have hlength := length_encode sig
  have hbody : (encodeInteger (canonical sig.r) ++ encodeInteger (canonical sig.s)).length =
      4 + (canonical sig.r).length + (canonical sig.s).length := by
    simp only [encodeInteger, List.length_cons, List.length_append]
    omega
  have hsize : (UInt8.ofNat (4 + (canonical sig.r).length + (canonical sig.s).length)).toNat =
      4 + (canonical sig.r).length + (canonical sig.s).length :=
    UInt8.toNat_ofNat_of_lt' (by change _ < 256; omega)
  rw [hnormal] at hlength
  unfold decode
  rw [if_neg (by omega), encode_eq, hnormal]
  dsimp only
  rw [if_neg (by simp), hsize, if_neg (by omega), ← hbody, List.take_length]
  exact readBody_encode h

end UtxoSpend.Der
