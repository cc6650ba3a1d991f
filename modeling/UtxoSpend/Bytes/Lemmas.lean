import Mathlib
import UtxoSpend.Bytes.Basic

/-!
# The range of positional byte strings

A byte string of `n` bytes denotes a number below `256 ^ n`, and every such number is denoted by the
bytes that `toLE` writes. Main statement: writing and reading back keeps a number modulo `256 ^ n`.
-/

namespace UtxoSpend

/-- A property of bytes is a property of 256 numbers. -/
theorem forall_byte {p : UInt8 → Prop} (h : ∀ n : Fin 256, p (UInt8.ofNat n)) (b : UInt8) :
    p b := by
  have hb := h ⟨b.toNat, b.toNat_lt⟩
  rwa [UInt8.ofNat_toNat] at hb

theorem and_highBit_ne_zero_iff (b : UInt8) : b &&& 0x80 ≠ 0 ↔ 128 ≤ b.toNat :=
  forall_byte (p := fun b => b &&& 0x80 ≠ 0 ↔ 128 ≤ b.toNat) (by decide +kernel) b

namespace Bytes

theorem leNat_lt (bs : Bytes) : leNat bs < 256 ^ bs.length := by
  induction bs with
  | nil => simp
  | cons b r ih =>
    have hb := b.toNat_lt
    rw [leNat_cons, List.length_cons, Nat.pow_succ]
    omega

theorem leNat_toLE (width n : Nat) : leNat (toLE width n) = n % 256 ^ width := by
  induction width generalizing n with
  | zero => simp [toLE, Nat.mod_one]
  | succ width ih =>
    rw [toLE, leNat_cons, ih, Nat.pow_succ, Nat.mul_comm (256 ^ width), Nat.mod_mul]
    simp

theorem leNat_toLE_of_lt {width n : Nat} (h : n < 256 ^ width) : leNat (toLE width n) = n := by
  rw [leNat_toLE, Nat.mod_eq_of_lt h]

theorem leNat_append (a b : Bytes) : leNat (a ++ b) = leNat a + 256 ^ a.length * leNat b := by
  induction a with
  | nil => simp
  | cons x a ih =>
      rw [List.cons_append, leNat_cons, leNat_cons, ih, List.length_cons, Nat.pow_succ]
      ring

theorem leNat_snoc (init : Bytes) (last : UInt8) :
    leNat (init ++ [last]) = leNat init + 256 ^ init.length * last.toNat := by
  rw [leNat_append, leNat_cons, leNat_nil, Nat.mul_zero, Nat.add_zero]

end Bytes

end UtxoSpend
