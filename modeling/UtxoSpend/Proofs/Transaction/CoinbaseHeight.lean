import Mathlib
import UtxoSpend.Proofs.Machine.SignMagnitude
import UtxoSpend.Proofs.Script.Push
import UtxoSpend.Transaction.Basic

/-!
# The height in a transaction that creates coins

The height is pushed as a script number and read as an unsigned number of up to four bytes.  The two
forms agree because a positive number has the sign bit clear, and the byte that keeps it clear is
one of the four.  Main statement: a height is read back, whatever follows its push, as long as it
needs no fifth byte.
-/

namespace UtxoSpend

namespace Number

variable {n : Int64}

theorem leNat_encode_of_pos (h : 1 ≤ n.toInt) : Bytes.leNat (encode n) = n.toInt.natAbs := by
  obtain ⟨hmagnitude, hnegative, -⟩ := encode_spec n
  rw [leNat_eq, hmagnitude, hnegative, if_neg (by simp; omega), Nat.add_zero]

theorem length_encode_pos (h : 1 ≤ n.toInt) : 1 ≤ (encode n).length := by
  by_contra hempty
  have hzero : n.toInt.natAbs < signWeight 0 := (length_encode_le_iff n 0).mp (by omega)
  have hone : signWeight 0 = 1 := rfl
  omega

end Number

/-- Short data that is not empty is the first chunk of every script that begins with its push. -/
theorem Script.firstChunk_push {data : Bytes} (hpos : 1 ≤ data.length) (hle : data.length ≤ 75)
    (rest : Bytes) :
    firstChunk ⟨(Instruction.push data).encode ++ rest⟩ =
      .ok (some ⟨pushOpcode data.length, some data⟩) := by
  obtain ⟨hlast, hlength, -⟩ := Instruction.pushOpcode_of_le_75 hle
  have hfirst : 1 ≤ pushOpcode data.length := by
    rw [UInt8.le_iff_toNat_le, hlength]
    exact hpos
  have hformed : Chunk.WellFormed ⟨pushOpcode data.length, some data⟩ :=
    .direct hfirst hlast hlength.symm
  exact Chunk.first_encode_append hformed rest

namespace Transaction

variable {tx : Transaction} {input : Input}

theorem isCoinbase_iff :
    tx.isCoinbase = true ↔ ∃ input, tx.inputs = [input] ∧ input.previous = .coinbase := by
  rw [isCoinbase]
  split
  · rename_i input hinputs
    simp [hinputs, OutPoint.isCoinbase]
  · rename_i hother
    constructor
    · intro h
      cases h
    · rintro ⟨input, hinputs, -⟩
      exact absurd hinputs (hother input)

theorem coinbaseHeight?_of_firstChunk {op : Opcode} {data : Bytes} (hinputs : tx.inputs = [input])
    (hprevious : input.previous = .coinbase)
    (hchunk : input.unlockingScript.firstChunk = .ok (some ⟨op, some data⟩)) :
    tx.coinbaseHeight? =
      if data.length ≤ 4 then some (UInt32.ofNat (Bytes.leNat data)) else none := by
  have hcoinbase : input.previous.isCoinbase = true := by
    rw [hprevious]
    decide
  simp only [coinbaseHeight?, hinputs, hcoinbase, hchunk, if_true]

theorem coinbaseHeight?_of_not_coinbase (h : tx.isCoinbase = false) :
    tx.coinbaseHeight? = none := by
  rw [isCoinbase] at h
  rw [coinbaseHeight?]
  split
  · rename_i input hinputs
    simp only [hinputs] at h
    simp [h]
  · rfl

theorem coinbaseHeight?_of_push {n : Int64} (hn : 1 ≤ n.toInt) (hinputs : tx.inputs = [input])
    (hprevious : input.previous = .coinbase) {rest : Bytes} (hscript :
      input.unlockingScript = ⟨(Instruction.push (Number.encode n)).encode ++ rest⟩) :
    tx.coinbaseHeight? =
      if n.toInt < 2 ^ 31 then some (UInt32.ofNat n.toInt.natAbs) else none := by
  have hlow := n.le_toInt
  have hhigh := n.toInt_lt
  have hshort : (Number.encode n).length ≤ 75 := by
    rw [Number.length_encode_le_iff, Number.signWeight]
    omega
  have hfour : (Number.encode n).length ≤ 4 ↔ n.toInt < 2 ^ 31 := by
    rw [Number.length_encode_le_iff, Number.signWeight]
    omega
  have hchunk := Script.firstChunk_push (Number.length_encode_pos hn) hshort rest
  rw [← hscript] at hchunk
  rw [coinbaseHeight?_of_firstChunk hinputs hprevious hchunk, Number.leNat_encode_of_pos hn]
  exact if_congr hfour rfl rfl

/-- A height that is pushed first is read back, whatever follows, exactly if it is less than
`2 ^ 31`; and only transactions that create coins have a height. -/
theorem coinbaseHeight?_exact :
    (∀ n : Int64, 1 ≤ n.toInt → ∃ pushed, Script.empty.appendPush (Number.encode n) = .ok pushed ∧
      ∀ (tx : Transaction) (input : Input) (rest : Bytes),
        tx.inputs = [input] → input.previous = .coinbase →
          input.unlockingScript = ⟨pushed.bytes ++ rest⟩ →
            (n.toInt < 2 ^ 31 →
              ∃ height, tx.coinbaseHeight? = some height ∧ (height.toNat : Int) = n.toInt) ∧
            (2 ^ 31 ≤ n.toInt → tx.coinbaseHeight? = none)) ∧
    ∀ tx : Transaction,
      (tx.isCoinbase = true ↔ ∃ input, tx.inputs = [input] ∧ input.previous = .coinbase) ∧
      (tx.isCoinbase = false → tx.coinbaseHeight? = none) := by
  constructor
  · intro n hn
    have hlow := n.le_toInt
    have hhigh := n.toInt_lt
    have hlength : (Number.encode n).length ≤ 0xffffffff := by
      apply le_trans _ (show 9 ≤ 0xffffffff by decide)
      rw [Number.length_encode_le_iff, Number.signWeight]
      omega
    refine ⟨_, Script.appendPush_eq .empty hlength, ?_⟩
    intro tx input rest hinputs hprevious hscript
    have hheight := coinbaseHeight?_of_push hn hinputs hprevious hscript
    constructor
    · intro hsmall
      rw [if_pos hsmall] at hheight
      refine ⟨_, hheight, ?_⟩
      rw [UInt32.toNat_ofNat', Nat.mod_eq_of_lt (by omega)]
      omega
    · intro hlarge
      rw [if_neg (by omega)] at hheight
      exact hheight
  · exact fun tx => ⟨isCoinbase_iff, coinbaseHeight?_of_not_coinbase⟩

/-- A height whose sign needs a byte of its own, before a push that breaks off; the least height
that is too large; and a transaction without inputs. -/
theorem coinbaseHeight?_exact_signByte :
    let creating (script : Bytes) : Transaction :=
      ⟨1, [⟨.coinbase, ⟨script⟩, Input.finalSequence, none⟩], [], 0, .bitcoin⟩
    (∃ height, (creating [0x02, 0x80, 0x00, 0x4c]).coinbaseHeight? = some height ∧
      (height.toNat : Int) = 128) ∧
    (creating [0x05, 0x00, 0x00, 0x00, 0x80, 0x00]).coinbaseHeight? = none ∧
    Transaction.empty.coinbaseHeight? = none := by
  intro creating
  obtain ⟨hread, hcoinbase⟩ := coinbaseHeight?_exact
  have hshort : Script.empty.appendPush (Number.encode 128) = .ok ⟨[0x02, 0x80, 0x00]⟩ := by
    decide +kernel
  have hlong : Script.empty.appendPush (Number.encode 0x80000000) =
      .ok ⟨[0x05, 0x00, 0x00, 0x00, 0x80, 0x00]⟩ := by decide +kernel
  obtain ⟨_, hpush, hheight⟩ := hread 128 (by decide)
  obtain ⟨_, hpush', hheight'⟩ := hread 0x80000000 (by decide)
  cases hshort.symm.trans hpush
  cases hlong.symm.trans hpush'
  refine ⟨?_, ?_, (hcoinbase Transaction.empty).2 rfl⟩
  · exact (hheight (creating [0x02, 0x80, 0x00, 0x4c]) _ [0x4c] rfl rfl rfl).1 (by decide)
  · exact (hheight' (creating [0x05, 0x00, 0x00, 0x00, 0x80, 0x00]) _ [] rfl rfl rfl).2 (by decide)

end Transaction

end UtxoSpend
