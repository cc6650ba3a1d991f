import UtxoSpend.Bytes.ByteVector
import UtxoSpend.Secp256k1.Field

/-!
# Signatures

A signature is a pair of 32-byte integers that nothing has checked yet. Of the two values of `s`
that verify, the lower one is the normal form; the other is its complement in the curve order.
-/

namespace UtxoSpend

/-- A signature as two unchecked integers, most significant byte first. -/
structure Signature where
  r : ByteVector 32
  s : ByteVector 32
  deriving DecidableEq

namespace Signature

def isLowS (sig : Signature) : Bool := sig.s.toNat ≤ Secp256k1.halfOrder

/-- One column of a subtraction, with a spare bit set so that it cannot run below zero. -/
def columnDifference (a b : UInt8) (borrow : UInt16) : UInt16 :=
  0x100 + a.toUInt16 - b.toUInt16 - borrow

def columnBorrow (a b : UInt8) (borrow : UInt16) : UInt16 :=
  if columnDifference a b borrow < 0x100 then 1 else 0

/-- Subtracts column by column, least significant byte first; a last borrow is dropped. -/
def subtractLE : Bytes → Bytes → UInt16 → Bytes
  | a :: as, b :: bs, borrow =>
    (columnDifference a b borrow).toUInt8 :: subtractLE as bs (columnBorrow a b borrow)
  | _, _, _ => []

theorem length_subtractLE (as bs : Bytes) (borrow : UInt16) :
    (subtractLE as bs borrow).length = min as.length bs.length := by
  induction as generalizing bs borrow with
  | nil => simp [subtractLE]
  | cons a as ih =>
    cases bs with
    | nil => simp [subtractLE]
    | cons b bs =>
      rw [subtractLE, List.length_cons, ih, List.length_cons, List.length_cons]
      omega

def complement (v : ByteVector 32) : ByteVector 32 :=
  ⟨(subtractLE (Bytes.toLE 32 Secp256k1.order) v.bytes.reverse 0).reverse, by
    simp [length_subtractLE]⟩

/-- The lower of the two values of `s`. -/
def normalS (sig : Signature) : ByteVector 32 := if sig.isLowS then sig.s else complement sig.s

end Signature

end UtxoSpend
