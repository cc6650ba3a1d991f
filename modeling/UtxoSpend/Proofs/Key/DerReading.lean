import Mathlib
import UtxoSpend.Proofs.Effect
import UtxoSpend.Proofs.Key.Complement

/-!
# Lenient reading against strict writing

A signature is written in one form only, with its integers as short as they can be and `s` in its
lower half, but it is read with any number of leading zeros and whatever follows the sequence.  Main
statement: what is written is read back in its normal form, what is read is in range and written
again in a form that reads and writes as itself, and no byte outside the string is looked at.
-/

namespace UtxoSpend

open Secp256k1 (order halfOrder order_eq order_lt)

namespace Signature

def normalForm (sig : Signature) : Signature := ⟨sig.r, sig.normalS⟩

theorem normalS_normalForm {sig : Signature} (h : Der.InRange sig) :
    sig.normalForm.normalS = sig.normalS := by
  have hlow : sig.normalForm.isLowS = true :=
    isLowS_eq_true_iff.mpr (normalS_range h.2.2.1 h.2.2.2).2
  rw [normalS, if_pos hlow]
  rfl

end Signature

namespace Der

/-! ## How long a written signature is -/

theorem length_canonical_le_of_lt {v : ByteVector 32} (h : v.toNat < 2 ^ 255) :
    (canonical v).length ≤ 32 := by
  have hle := Bytes.length_dropZeros_le v.bytes
  have hvalue : Bytes.beNat (Bytes.dropZeros v.bytes) = v.toNat := Bytes.beNat_dropZeros v.bytes
  rw [v.length_eq] at hle
  rw [canonical_eq]
  cases hshort : Bytes.dropZeros v.bytes with
  | nil => decide
  | cons b r =>
      rw [hshort, List.length_cons] at hle
      rw [hshort, Bytes.beNat_cons] at hvalue
      dsimp only
      split_ifs with hbit
      · -- With the highest bit of 32 bytes the value would be too large.
        have hb := (and_highBit_ne_zero_iff b).mp hbit
        have hlength : r.length ≠ 31 := by
          intro hfull
          rw [hfull] at hvalue
          omega
        rw [List.length_cons, List.length_cons]
        omega
      · rw [List.length_cons]
        omega

theorem encode_length_range {sig : Signature} (h : InRange sig) :
    8 ≤ (encode sig).length ∧ (encode sig).length ≤ 71 := by
  have hhalf : halfOrder < 2 ^ 255 := by decide
  have hr := length_canonical_le sig.r
  have hrpos := length_canonical_pos sig.r
  have hs := length_canonical_le_of_lt
    ((Signature.normalS_range h.2.2.1 h.2.2.2).2.trans_lt hhalf)
  have hspos := length_canonical_pos sig.normalS
  rw [length_encode]
  omega

/-! ## What is accepted -/

theorem readInteger_of_ne (part : SignaturePart) {tag : UInt8} (h : tag ≠ integerTag)
    (rest : Bytes) : readInteger part (tag :: rest) = .error (.signature (.noIntegerMarker part)) :=
  if_neg h

theorem readInteger_cons (part : SignaturePart) (size : UInt8) (body : Bytes) :
    readInteger part (integerTag :: size :: body) =
      if size.toNat ≠ 0 ∧ size.toNat ≤ body.length then
        .ok (body.take size.toNat, body.drop size.toNat)
      else .error (.signature (.badIntegerLength part)) := rfl

theorem readInteger_suffix {part : SignaturePart} {bs body rest : Bytes}
    (h : readInteger part bs = .ok (body, rest)) : rest <:+ bs := by
  match bs, h with
  | tag :: bytes, h =>
      by_cases hmarker : tag = integerTag
      · subst hmarker
        match bytes, h with
        | size :: bytes, h =>
            rw [readInteger_cons] at h
            split_ifs at h
            cases h
            exact (List.drop_suffix _ _).trans ((List.suffix_cons _ _).trans (List.suffix_cons _ _))
      · rw [readInteger_of_ne part hmarker] at h
        cases h

theorem checkRange_eq_ok {sig result : Signature} (h : checkRange sig = .ok result) :
    result = sig ∧ InRange sig := by
  unfold checkRange at h
  split_ifs at h with hzero habove
  cases h
  refine ⟨rfl, ?_⟩
  unfold InRange
  omega

theorem readBody_inRange {body : Bytes} {sig : Signature} (h : readBody body = .ok sig) :
    InRange sig := by
  unfold readBody at h
  obtain ⟨⟨r, rest⟩, -, h⟩ := Effect.except_bind_eq_ok.mp h
  dsimp only at h
  split_ifs at h
  · cases h
  obtain ⟨⟨s, tail⟩, -, h⟩ := Effect.except_bind_eq_ok.mp h
  obtain ⟨r, -, h⟩ := Effect.except_bind_eq_ok.mp h
  obtain ⟨s, -, h⟩ := Effect.except_bind_eq_ok.mp h
  obtain ⟨rfl, hrange⟩ := checkRange_eq_ok h
  exact hrange

theorem decode_eq_ok_iff {bs : Bytes} {sig : Signature} :
    decode bs = .ok sig ↔ ∃ size rest, bs = sequenceTag :: size :: rest ∧ 6 ≤ size.toNat ∧
      size.toNat ≤ rest.length ∧ readBody (rest.take size.toNat) = .ok sig := by
  constructor
  · intro h
    unfold decode at h
    split_ifs at h with hshort
    match bs, h with
    | tag :: size :: rest, h =>
        dsimp only at h
        split_ifs at h with htag hsize
        obtain rfl : tag = sequenceTag := not_not.mp htag
        exact ⟨size, rest, rfl, by omega, by omega, h⟩
    | [], h => cases h
    | [_], h => cases h
  · rintro ⟨size, rest, rfl, hsix, hfits, hbody⟩
    unfold decode
    rw [if_neg (by simp only [List.length_cons]; omega)]
    dsimp only
    rw [if_neg (by simp), if_neg (by omega)]
    exact hbody

theorem decode_inRange {bs : Bytes} {sig : Signature} (h : decode bs = .ok sig) : InRange sig := by
  obtain ⟨size, rest, -, -, -, hbody⟩ := decode_eq_ok_iff.mp h
  exact readBody_inRange hbody

theorem decode_append {bs : Bytes} {sig : Signature} (h : decode bs = .ok sig) (tail : Bytes) :
    decode (bs ++ tail) = .ok sig := by
  obtain ⟨size, rest, rfl, hsix, hfits, hbody⟩ := decode_eq_ok_iff.mp h
  refine decode_eq_ok_iff.mpr ⟨size, rest ++ tail, rfl, hsix, ?_, ?_⟩
  · rw [List.length_append]
    omega
  · rwa [List.take_append_of_le_length hfits]

/-! ## What is written -/

theorem inRange_normalForm {sig : Signature} (h : InRange sig) : InRange sig.normalForm := by
  obtain ⟨hpos, hlow⟩ := Signature.normalS_range h.2.2.1 h.2.2.2
  have horder := order_eq
  refine ⟨h.1, h.2.1, hpos, ?_⟩
  change sig.normalS.toNat < order
  omega

theorem encode_normalForm {sig : Signature} (h : InRange sig) :
    encode sig.normalForm = encode sig := by
  rw [encode_eq, encode_eq, Signature.normalS_normalForm h]
  rfl

theorem decode_encode_normalForm {sig : Signature} (h : InRange sig) :
    decode (encode sig) = .ok sig.normalForm := by
  rw [← encode_normalForm h]
  exact decode_encode (inRange_normalForm h)
    (Signature.isLowS_eq_true_iff.mpr (Signature.normalS_range h.2.2.1 h.2.2.2).2)

/-! ## Which bytes are looked at

The same reader with positions in the string, where looking at a byte outside gives nothing. -/

def window (bs : Bytes) (start stop : Nat) : Bytes := (bs.take stop).drop start

def window? (bs : Bytes) (start stop : Nat) : Option Bytes :=
  if start ≤ stop ∧ stop ≤ bs.length then some (window bs start stop) else none

/-- Splits one integer off the bytes from `start` up to `stop`, and tells where the rest begins. -/
def readIntegerAt? (part : SignaturePart) (bs : Bytes) (start stop : Nat) :
    Option (Except DecodeError (Bytes × Nat)) :=
  if stop ≤ start then some (.error (.signature (.noIntegerMarker part)))
  else do
    let tag ← bs[start]?
    if tag ≠ integerTag then return .error (.signature (.noIntegerMarker part))
    else if stop ≤ start + 1 then return .error (.signature (.badIntegerLength part))
    else
      let size ← bs[start + 1]?
      let next := start + 2 + size.toNat
      if size.toNat ≠ 0 ∧ next ≤ stop then
        let body ← window? bs (start + 2) next
        return .ok (body, next)
      else return .error (.signature (.badIntegerLength part))

def readBodyAt? (bs : Bytes) (stop : Nat) : Option (Except DecodeError Signature) := do
  match ← readIntegerAt? .r bs 2 stop with
  | .error e => return .error e
  | .ok (r, next) =>
    if stop - next < 3 then return .error (.signature (.badIntegerLength .r))
    else
      match ← readIntegerAt? .s bs next stop with
      | .error e => return .error e
      | .ok (s, _) =>
        return do
          let r ← toScalar r
          let s ← toScalar s
          checkRange ⟨r, s⟩

/-- Reads a signature from the front of `bs`. -/
def decodeAt? (bs : Bytes) : Option (Except DecodeError Signature) :=
  if bs.length < 8 then some (.error (.signature .tooShort))
  else do
    let tag ← bs[0]?
    if tag ≠ sequenceTag then return .error (.signature .noHeader)
    else
      let size ← bs[1]?
      let stop := size.toNat + 2
      if stop < 8 ∨ bs.length < stop then return .error (.signature .badLength)
      else readBodyAt? bs stop

theorem length_window {bs : Bytes} (start : Nat) {stop : Nat} (h : stop ≤ bs.length) :
    (window bs start stop).length = stop - start := by
  rw [window, List.length_drop, List.length_take, min_eq_left h]

theorem window_eq_cons {bs rest : Bytes} {start stop : Nat} {b : UInt8}
    (h : window bs start stop = b :: rest) :
    bs[start]? = some b ∧ window bs (start + 1) stop = rest := by
  constructor
  · have hhead : (window bs start stop)[0]? = some b := by rw [h, List.getElem?_cons_zero]
    rw [window, List.getElem?_drop, Nat.add_zero, List.getElem?_take] at hhead
    split_ifs at hhead
    exact hhead
  · rw [window, ← List.drop_drop]
    change (window bs start stop).drop 1 = rest
    rw [h, List.drop_one, List.tail_cons]

theorem take_window (bs : Bytes) (start : Nat) {stop n : Nat} (h : start + n ≤ stop) :
    (window bs start stop).take n = window bs start (start + n) := by
  rw [window, window, List.take_drop, List.take_take, min_eq_left h]

theorem window?_eq_take {bs : Bytes} {start stop n : Nat} (hstop : stop ≤ bs.length)
    (h : start + n ≤ stop) :
    window? bs start (start + n) = some ((window bs start stop).take n) := by
  rw [window?, if_pos (by omega), take_window bs start h]

/-- Reading an integer where it lies is reading it off the front of what is left. -/
theorem readIntegerAt?_eq (part : SignaturePart) {bs : Bytes} {start stop : Nat}
    (hstop : stop ≤ bs.length) :
    readIntegerAt? part bs start stop =
      some ((readInteger part (window bs start stop)).map fun p => (p.1, stop - p.2.length)) := by
  have hlength := length_window start hstop
  cases htags : window bs start stop with
  | nil =>
      rw [htags, List.length_nil] at hlength
      rw [readIntegerAt?, if_pos (by omega)]
      rfl
  | cons tag rest =>
      rw [htags, List.length_cons] at hlength
      obtain ⟨htag, hrest⟩ := window_eq_cons htags
      rw [readIntegerAt?, if_neg (by omega), htag, Option.bind_eq_bind, Option.bind_some]
      by_cases hmarker : tag = integerTag
      · subst hmarker
        rw [if_neg (by simp)]
        cases rest with
        | nil =>
            rw [List.length_nil] at hlength
            rw [if_pos (by omega)]
            rfl
        | cons size body =>
            rw [List.length_cons] at hlength
            obtain ⟨hsize, hbody⟩ := window_eq_cons hrest
            rw [if_neg (by omega), hsize, readInteger_cons, Option.bind_eq_bind, Option.bind_some]
            dsimp only
            by_cases hfits : size.toNat ≠ 0 ∧ size.toNat ≤ body.length
            · have hnext : start + 1 + 1 + size.toNat ≤ stop := by omega
              have hwindow : window? bs (start + 2) (start + 2 + size.toNat) =
                  some (body.take size.toNat) := by
                rw [window?_eq_take hstop hnext, hbody]
              have hafter : stop - (body.drop size.toNat).length = start + 2 + size.toNat := by
                rw [List.length_drop]
                omega
              rw [if_pos ⟨hfits.1, hnext⟩, if_pos hfits, hwindow, Option.bind_some, Except.map,
                hafter]
              rfl
            · rw [if_neg (by omega), if_neg hfits]
              rfl
      · rw [if_pos hmarker, readInteger_of_ne part hmarker]
        rfl

theorem eq_window_of_suffix {bs rest : Bytes} {start stop : Nat} (hstop : stop ≤ bs.length)
    (h : rest <:+ window bs start stop) : rest = window bs (stop - rest.length) stop := by
  have hsuffix : rest <:+ bs.take stop := h.trans (List.drop_suffix _ _)
  have hdrop := List.suffix_iff_eq_drop.mp hsuffix
  rw [List.length_take, min_eq_left hstop] at hdrop
  exact hdrop

theorem readBodyAt?_eq {bs : Bytes} {stop : Nat} (hstop : stop ≤ bs.length) :
    readBodyAt? bs stop = some (readBody (window bs 2 stop)) := by
  rw [readBodyAt?, readBody, readIntegerAt?_eq .r hstop]
  cases hr : readInteger .r (window bs 2 stop) with
  | error e => rfl
  | ok first =>
      obtain ⟨r, rest⟩ := first
      have hsuffix := readInteger_suffix hr
      have hrest := eq_window_of_suffix hstop hsuffix
      have hle := hsuffix.length_le
      rw [length_window 2 hstop] at hle
      have hleft : stop - (stop - rest.length) = rest.length := by omega
      simp only [Except.map, Option.bind_eq_bind, Option.bind_some, hleft]
      by_cases hshort : rest.length < 3
      · rw [if_pos hshort]
        simp only [bind, Except.bind, if_pos hshort]
        rfl
      · rw [if_neg hshort, readIntegerAt?_eq .s hstop, ← hrest]
        simp only [bind, Except.bind, if_neg hshort]
        cases readInteger .s rest <;> rfl

/-- Every byte that is looked at lies in the string. -/
theorem decodeAt?_eq (bs : Bytes) : decodeAt? bs = some (decode bs) := by
  unfold decodeAt? decode
  split_ifs with hshort
  · rfl
  · match bs, hshort with
    | [], hshort => exact absurd (by decide) hshort
    | [_], hshort => exact absurd (by simp) hshort
    | tag :: size :: rest, hshort =>
        have hlength : (tag :: size :: rest).length = rest.length + 2 := rfl
        rw [List.getElem?_cons_zero, List.getElem?_cons_succ, List.getElem?_cons_zero]
        simp only [Option.bind_eq_bind, Option.bind_some]
        by_cases htag : tag ≠ sequenceTag
        · rw [if_pos htag, if_pos htag]
          rfl
        · rw [if_neg htag, if_neg htag]
          by_cases hsize : size.toNat < 6 ∨ rest.length < size.toNat
          · rw [if_pos (by omega), if_pos hsize]
            rfl
          · rw [if_neg (by omega), if_neg hsize, readBodyAt?_eq (by omega)]
            rfl

/-! ## The codec -/

/-- Writing and reading back gives the signature with the smaller value of `s`, whatever follows;
what is read is in range, does not depend on what follows, and is written in a form that reads and
writes as itself; and reading looks at no byte outside the string. -/
theorem lenient_codec :
    (∀ sig : Signature, InRange sig →
      (∀ tail, decode (encode sig ++ tail) =
        .ok ⟨sig.r, .ofNat 32 (min sig.s.toNat (order - sig.s.toNat))⟩) ∧
      8 ≤ (encode sig).length ∧ (encode sig).length ≤ 71) ∧
    (∀ bs sig, decode bs = .ok sig →
      InRange sig ∧ (∀ tail, decode (bs ++ tail) = .ok sig) ∧
      ∃ again, decode (encode sig) = .ok again ∧ encode again = encode sig) ∧
    ∀ bs, decodeAt? bs = some (decode bs) := by
  refine ⟨fun sig hrange => ⟨fun tail => ?_, encode_length_range hrange⟩, fun bs sig h => ?_,
    decodeAt?_eq⟩
  · rw [← Signature.normalS_eq_min sig hrange.2.2.2]
    exact decode_append (decode_encode_normalForm hrange) tail
  · have hrange := decode_inRange h
    exact ⟨hrange, decode_append h, sig.normalForm, decode_encode_normalForm hrange,
      encode_normalForm hrange⟩

/-- A value of `s` in the upper half and a hash type after it, and a string with padded integers. -/
theorem lenient_codec_upperHalf :
    InRange ⟨.ofNat 32 1, .ofNat 32 (order - 1)⟩ ∧
      decode (encode ⟨.ofNat 32 1, .ofNat 32 (order - 1)⟩ ++ [0x41]) =
        .ok ⟨.ofNat 32 1, .ofNat 32 (min (ByteVector.ofNat 32 (order - 1)).toNat
          (order - (ByteVector.ofNat 32 (order - 1)).toNat))⟩ ∧
      decode [0x30, 8, 2, 2, 0, 1, 2, 2, 0, 1] = .ok ⟨.ofNat 32 1, .ofNat 32 1⟩ ∧
      InRange ⟨.ofNat 32 1, .ofNat 32 1⟩ := by
  have hupper : InRange ⟨.ofNat 32 1, .ofNat 32 (order - 1)⟩ := by
    unfold InRange
    decide
  have hpadded : decode [0x30, 8, 2, 2, 0, 1, 2, 2, 0, 1] = .ok ⟨.ofNat 32 1, .ofNat 32 1⟩ := by
    decide
  exact ⟨hupper, (lenient_codec.1 _ hupper).1 [0x41], hpadded, (lenient_codec.2.1 _ _ hpadded).1⟩

end Der

end UtxoSpend
