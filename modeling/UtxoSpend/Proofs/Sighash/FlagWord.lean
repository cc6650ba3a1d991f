import Mathlib
import UtxoSpend.Bytes.Lemmas
import UtxoSpend.Proofs.Sighash.Digest

/-!
# What the word of a flag tells

The low byte of the word has bits for the base, for open inputs and for the presence of a fork id.
The id stands above it, so its own high byte is shifted out.  Main statement: two flags have one
word exactly if they agree in all of this.
-/

namespace UtxoSpend

namespace Wire

theorem u32_inj {v w : UInt32} : u32 v = u32 w ↔ v = w := by
  constructor
  · intro h
    have hnat : Bytes.leNat (u32 v) = Bytes.leNat (u32 w) := by rw [h]
    rw [u32, u32, Bytes.leNat_toLE_of_lt v.toNat_lt, Bytes.leNat_toLE_of_lt w.toNat_lt] at hnat
    exact UInt32.toNat_inj.mp hnat
  · intro h
    rw [h]

end Wire

namespace SighashFlag

/-- The low 24 bits of the fork id; a flag without one counts as one with the id zero. -/
def forkBits (flag : SighashFlag) : Nat := (flag.forkId.getD 0).toNat % 2 ^ 24

/-- The low byte of a flag and, above it, what its word keeps of the fork id. -/
theorem toNat_toUInt32 (flag : SighashFlag) :
    flag.toUInt32.toNat = 2 ^ 8 * flag.forkBits + flag.toByte.toNat := by
  unfold forkBits toUInt32
  generalize flag.forkId.getD 0 = id
  have hshift : (id <<< (8 : UInt32)).toNat = (id.toNat % 2 ^ 24) <<< 8 := by
    have hid : id.toNat <<< 8 % 2 ^ 32 = id.toNat % 2 ^ 24 * 2 ^ 8 := by
      rw [Nat.shiftLeft_eq]
      omega
    rw [UInt32.toNat_shiftLeft, Nat.shiftLeft_eq (id.toNat % 2 ^ 24), ← hid]
    rfl
  have hbyte : flag.toByte.toUInt32.toNat < 2 ^ 8 := flag.toByte.toNat_lt
  calc (flag.toByte.toUInt32 ||| id <<< (8 : UInt32)).toNat
      = flag.toByte.toUInt32.toNat ||| (id <<< (8 : UInt32)).toNat := UInt32.toNat_or _ _
    _ = (id.toNat % 2 ^ 24) <<< 8 ||| flag.toByte.toUInt32.toNat := by
        rw [hshift, Nat.or_comm]
    _ = (id.toNat % 2 ^ 24) <<< 8 + flag.toByte.toUInt32.toNat :=
        (Nat.shiftLeft_add_eq_or_of_lt hbyte _).symm
    _ = 2 ^ 8 * (id.toNat % 2 ^ 24) + flag.toByte.toNat := by
        rw [Nat.shiftLeft_eq, Nat.mul_comm]
        rfl

theorem toByte_eq_iff {f g : SighashFlag} : f.toByte = g.toByte ↔
    f.base = g.base ∧ f.anyoneCanPay = g.anyoneCanPay ∧ f.forkId.isSome = g.forkId.isSome := by
  constructor
  · intro h
    have hsame := (ofUInt32_toByte f).symm.trans (h ▸ ofUInt32_toByte g)
    simp only [Except.ok.injEq, SighashFlag.mk.injEq] at hsame
    obtain ⟨hbase, hanyone, hid⟩ := hsame
    have hsome := congrArg Option.isSome hid
    rw [Option.isSome_map, Option.isSome_map] at hsome
    exact ⟨hbase, hanyone, hsome⟩
  · rintro ⟨hbase, hanyone, hsome⟩
    rw [toByte, toByte, typeBits, typeBits, hbase, hanyone, hsome]

/-- The word tells the base, whether inputs are open, whether there is a fork id, and the low 24
bits of the id. -/
theorem encode_eq_iff {f g : SighashFlag} : f.encode = g.encode ↔
    (f.base = g.base ∧ f.anyoneCanPay = g.anyoneCanPay ∧ f.forkId.isSome = g.forkId.isSome) ∧
      f.forkBits = g.forkBits := by
  have hf := f.toByte.toNat_lt
  have hg := g.toByte.toNat_lt
  rw [encode, encode, Wire.u32_inj, ← UInt32.toNat_inj, toNat_toUInt32, toNat_toUInt32,
    ← toByte_eq_iff, ← UInt8.toNat_inj]
  omega

end SighashFlag

end UtxoSpend
