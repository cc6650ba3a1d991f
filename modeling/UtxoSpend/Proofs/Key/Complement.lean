import Mathlib
import UtxoSpend.Key.PublicKey
import UtxoSpend.Proofs.Bytes.BigEndian
import UtxoSpend.Proofs.Key.Signing

/-!
# Signatures that nothing has checked

A value of `s` in the upper half is replaced by its complement in the curve order before the curve
sees it.  The complement is computed byte by byte with a borrow, and `s` may be any 32 bytes, so a
value above the order runs below zero.  Main statement: what comes out is the difference from the
order modulo `2 ^ 256`, no column leaves its 16 bits, and no value outside `[1, order)` is moved
into it; hence such signatures are never valid, and the two values of `s` are valid together.
-/

namespace UtxoSpend

open Secp256k1 (order halfOrder order_eq order_lt)

namespace Signature

/-! ## One column -/

theorem toNat_columnDifference (a b : UInt8) {borrow : UInt16} (hborrow : borrow.toNat ≤ 1) :
    (columnDifference a b borrow).toNat = 256 + a.toNat - b.toNat - borrow.toNat := by
  have ha := a.toNat_lt
  have hb := b.toNat_lt
  simp only [columnDifference, UInt16.toNat_sub, UInt16.toNat_add, UInt16.toNat_ofNat,
    UInt8.toNat_toUInt16]
  omega

theorem columnBorrow_le_one (a b : UInt8) (borrow : UInt16) :
    (columnBorrow a b borrow).toNat ≤ 1 := by
  unfold columnBorrow
  split_ifs <;> decide

theorem column_exact (a b : UInt8) {borrow : UInt16} (hborrow : borrow.toNat ≤ 1) :
    (columnDifference a b borrow).toUInt8.toNat + b.toNat + borrow.toNat =
      a.toNat + 256 * (columnBorrow a b borrow).toNat := by
  have ha := a.toNat_lt
  have hb := b.toNat_lt
  have hdifference := toNat_columnDifference a b hborrow
  rw [UInt16.toNat_toUInt8]
  unfold columnBorrow
  split_ifs with hsmall
  · rw [UInt16.lt_iff_toNat_lt] at hsmall
    change _ < 256 at hsmall
    change _ = _ + 256 * 1
    omega
  · rw [UInt16.lt_iff_toNat_lt] at hsmall
    change ¬_ < 256 at hsmall
    change _ = _ + 256 * 0
    omega

/-! ## All columns -/

theorem leNat_subtractLE {as bs : Bytes} (hlength : as.length = bs.length) {borrow : UInt16}
    (hborrow : borrow.toNat ≤ 1) :
    ∃ last ≤ 1, Bytes.leNat (subtractLE as bs borrow) + Bytes.leNat bs + borrow.toNat =
      Bytes.leNat as + 256 ^ as.length * last := by
  induction as generalizing bs borrow with
  | nil =>
      obtain rfl : bs = [] := List.length_eq_zero_iff.mp hlength.symm
      exact ⟨borrow.toNat, hborrow, by simp [subtractLE]⟩
  | cons a as ih =>
      cases bs with
      | nil => cases hlength
      | cons b bs =>
          have hcolumn := column_exact a b hborrow
          obtain ⟨last, hlast, hrest⟩ :=
            ih (by simpa using hlength) (columnBorrow_le_one a b borrow)
          refine ⟨last, hlast, ?_⟩
          rw [subtractLE, Bytes.leNat_cons, Bytes.leNat_cons, Bytes.leNat_cons, List.length_cons,
            Nat.pow_succ', Nat.mul_assoc]
          omega

theorem toNat_complement (v : ByteVector 32) :
    (complement v).toNat = (2 ^ 256 + order - v.toNat) % 2 ^ 256 := by
  have horder := order_lt
  have hv := v.toNat_lt
  have hlt := (complement v).toNat_lt
  have hminuend : Bytes.leNat (Bytes.toLE 32 order) = order := Bytes.leNat_toLE_of_lt order_lt
  have hsubtrahend : Bytes.leNat v.bytes.reverse = v.toNat :=
    (Bytes.beNat_eq_leNat_reverse _).symm
  have hdifference : Bytes.leNat (subtractLE (Bytes.toLE 32 order) v.bytes.reverse 0) =
      (complement v).toNat := by
    rw [ByteVector.toNat, complement, Bytes.beNat_eq_leNat_reverse, List.reverse_reverse]
  have hlength : (Bytes.toLE 32 order).length = v.bytes.reverse.length := by simp
  have hstart : (0 : UInt16).toNat ≤ 1 := by decide
  obtain ⟨last, hlast, hsum⟩ := leNat_subtractLE hlength hstart
  rw [hdifference, hsubtrahend, hminuend, Bytes.length_toLE] at hsum
  change _ + 0 = _ at hsum
  omega

/-- The complement is the difference from the order, modulo what 32 bytes hold. -/
theorem complement_eq (v : ByteVector 32) :
    complement v = .ofNat 32 (((order : Int) - v.toNat) % 2 ^ 256).toNat := by
  have hv := v.toNat_lt
  rw [← ByteVector.ofNat_toNat (complement v), toNat_complement]
  congr 1
  omega

/-! ## No column leaves its range

The same subtraction in words that refuse to wrap around. -/

def addWords? (a b : UInt16) : Option UInt16 :=
  if a.toNat + b.toNat < UInt16.size then some (a + b) else none

def subtractWords? (a b : UInt16) : Option UInt16 :=
  if b.toNat ≤ a.toNat then some (a - b) else none

def columnDifference? (a b : UInt8) (borrow : UInt16) : Option UInt16 := do
  let widened ← addWords? 0x100 a.toUInt16
  let reduced ← subtractWords? widened b.toUInt16
  subtractWords? reduced borrow

def subtractLE? : Bytes → Bytes → UInt16 → Option Bytes
  | a :: as, b :: bs, borrow => do
    let difference ← columnDifference? a b borrow
    let rest ← subtractLE? as bs (if difference < 0x100 then 1 else 0)
    return difference.toUInt8 :: rest
  | _, _, _ => some []

theorem columnDifference?_eq_some (a b : UInt8) {borrow : UInt16} (hborrow : borrow.toNat ≤ 1) :
    columnDifference? a b borrow = some (columnDifference a b borrow) := by
  have ha := a.toNat_lt
  have hb := b.toNat_lt
  have hwidened : addWords? 0x100 a.toUInt16 = some (0x100 + a.toUInt16) := by
    rw [addWords?, if_pos]
    change 256 + a.toNat < 65536
    omega
  have hreduced : subtractWords? (0x100 + a.toUInt16) b.toUInt16 =
      some (0x100 + a.toUInt16 - b.toUInt16) := by
    rw [subtractWords?, if_pos]
    simp only [UInt16.toNat_add, UInt16.toNat_ofNat, UInt8.toNat_toUInt16]
    omega
  have hdifference : subtractWords? (0x100 + a.toUInt16 - b.toUInt16) borrow =
      some (columnDifference a b borrow) := by
    rw [subtractWords?, if_pos, columnDifference]
    simp only [UInt16.toNat_sub, UInt16.toNat_add, UInt16.toNat_ofNat, UInt8.toNat_toUInt16]
    omega
  simp only [columnDifference?, Option.bind_eq_bind, hwidened, Option.bind_some, hreduced,
    hdifference]

theorem subtractLE?_eq_some (as bs : Bytes) {borrow : UInt16} (hborrow : borrow.toNat ≤ 1) :
    subtractLE? as bs borrow = some (subtractLE as bs borrow) := by
  induction as generalizing bs borrow with
  | nil => rfl
  | cons a as ih =>
      cases bs with
      | nil => rfl
      | cons b bs =>
          have hrest := ih bs (columnBorrow_le_one a b borrow)
          rw [columnBorrow] at hrest
          rw [subtractLE?, columnDifference?_eq_some a b hborrow, Option.bind_eq_bind,
            Option.bind_some, hrest]
          rfl

/-! ## The lower of the two values -/

theorem isLowS_eq_true_iff {sig : Signature} : sig.isLowS = true ↔ sig.s.toNat ≤ halfOrder :=
  decide_eq_true_iff

theorem normalS_eq_min (sig : Signature) (h : sig.s.toNat < order) :
    sig.normalS = .ofNat 32 (min sig.s.toNat (order - sig.s.toNat)) := by
  have horder := order_eq
  have hwidth := order_lt
  rw [normalS]
  split_ifs with hlow
  · rw [isLowS_eq_true_iff] at hlow
    rw [min_eq_left (by omega), ByteVector.ofNat_toNat]
  · rw [isLowS_eq_true_iff] at hlow
    rw [min_eq_right (by omega), ← ByteVector.ofNat_toNat (complement sig.s), toNat_complement]
    congr 1
    omega

/-- The wrap-around of a value above the order ends above the order. -/
theorem normalS_outOfRange {sig : Signature} (h : sig.s.toNat = 0 ∨ order ≤ sig.s.toNat) :
    sig.normalS.toNat = 0 ∨ order ≤ sig.normalS.toNat := by
  have horder := order_eq
  have hwidth := order_lt
  have hs := sig.s.toNat_lt
  rw [normalS]
  split_ifs with hlow
  · exact h
  · rw [isLowS_eq_true_iff] at hlow
    rw [toNat_complement]
    omega

theorem normalS_range {sig : Signature} (hpos : 0 < sig.s.toNat) (hlt : sig.s.toNat < order) :
    0 < sig.normalS.toNat ∧ sig.normalS.toNat ≤ halfOrder := by
  have horder := order_eq
  have hwidth := order_lt
  rw [normalS_eq_min sig hlt, ByteVector.toNat_ofNat_of_lt (by omega)]
  omega

theorem normalS_mirror (r : ByteVector 32) {s : ByteVector 32} (hpos : 0 < s.toNat)
    (hlt : s.toNat < order) : normalS ⟨r, .ofNat 32 (order - s.toNat)⟩ = normalS ⟨r, s⟩ := by
  have hwidth := order_lt
  have hmirror : (ByteVector.ofNat 32 (order - s.toNat)).toNat = order - s.toNat :=
    ByteVector.toNat_ofNat_of_lt (by omega)
  have hback : min (order - s.toNat) (order - (order - s.toNat)) =
      min s.toNat (order - s.toNat) := by omega
  have hmirrorlt : (ByteVector.ofNat 32 (order - s.toNat)).toNat < order := by omega
  rw [normalS_eq_min ⟨r, s⟩ hlt, normalS_eq_min ⟨r, .ofNat 32 (order - s.toNat)⟩ hmirrorlt, hmirror,
    hback]

end Signature

/-! ## Verification -/

namespace PublicKey

theorem verify_outOfRange (key : PublicKey) (digest : Bytes) (sig : Signature)
    (h : (sig.r.toNat = 0 ∨ order ≤ sig.r.toNat) ∨ sig.s.toNat = 0 ∨ order ≤ sig.s.toNat) :
    key.verify digest sig = false := by
  rw [verify, Secp256k1.Ecdsa.verify, if_pos]
  rcases h with (hzero | habove) | hs
  · exact .inl hzero
  · exact .inr (.inl habove)
  · exact .inr (.inr (Signature.normalS_outOfRange hs))

/-- The subtraction from the order wraps around as 256-bit numbers do, without any column leaving
its range, and unchecked signatures are safe to verify. -/
theorem verify_unchecked (key : PublicKey) (digest : Bytes) :
    (∀ v : ByteVector 32,
      Signature.subtractLE? (Bytes.toLE 32 order) v.bytes.reverse 0 =
        some (Signature.complement v).bytes.reverse ∧
      Signature.complement v = .ofNat 32 (((order : Int) - v.toNat) % 2 ^ 256).toNat) ∧
    ∀ r s : ByteVector 32,
      ((r.toNat = 0 ∨ order ≤ r.toNat) ∨ s.toNat = 0 ∨ order ≤ s.toNat →
        key.verify digest ⟨r, s⟩ = false) ∧
      (0 < s.toNat → s.toNat < order →
        key.verify digest ⟨r, .ofNat 32 (order - s.toNat)⟩ = key.verify digest ⟨r, s⟩) := by
  refine ⟨fun v => ⟨?_, Signature.complement_eq v⟩, fun r s => ⟨?_, ?_⟩⟩
  · rw [Signature.subtractLE?_eq_some _ _ (by decide), Signature.complement, List.reverse_reverse]
  · exact verify_outOfRange key digest ⟨r, s⟩
  · intro hpos hlt
    rw [verify, verify, Signature.normalS_mirror r hpos hlt]

/-- The largest 32 bytes as `s`, and the two values next to the order. -/
theorem verify_unchecked_generator :
    let key : PublicKey := ⟨⟨Secp256k1.Point.generator.x, Secp256k1.Point.generator.y⟩⟩
    let digest : Bytes := List.replicate 32 0x11
    order ≤ (ByteVector.replicate 32 0xff).toNat ∧
      key.verify digest ⟨.ofNat 32 1, .replicate 32 0xff⟩ = false ∧
      key.verify digest ⟨.ofNat 32 1, .ofNat 32 (order - (ByteVector.ofNat 32 1).toNat)⟩ =
        key.verify digest ⟨.ofNat 32 1, .ofNat 32 1⟩ := by
  intro key digest
  have habove : order ≤ (ByteVector.replicate 32 0xff).toNat := by decide
  exact ⟨habove, ((verify_unchecked key digest).2 _ _).1 (.inr (.inr habove)),
    ((verify_unchecked key digest).2 _ _).2 (by decide) (by decide)⟩

end PublicKey

end UtxoSpend
