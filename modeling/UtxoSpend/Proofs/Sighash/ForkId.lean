import Mathlib
import UtxoSpend.Proofs.Sighash.FlagWord
import UtxoSpend.Sighash.Preimage

/-!
# How much of a fork id is signed

The fork id stands above the low byte of a flag, in a word of 32 bits, so its own high byte is
shifted out.  Main statement: bound to two chains with fork ids, a transaction has one and the same
message exactly if the ids agree in their low 24 bits.
-/

namespace UtxoSpend

namespace SighashFlag

theorem encode_withForkId_eq_iff (flag : SighashFlag) (a b : UInt32) :
    (flag.withForkId a).encode = (flag.withForkId b).encode ↔
      a.toNat % 2 ^ 24 = b.toNat % 2 ^ 24 := by
  rw [encode_eq_iff]
  constructor
  · rintro ⟨-, hbits⟩
    exact hbits
  · intro hbits
    exact ⟨⟨rfl, rfl, rfl⟩, hbits⟩

end SighashFlag

def Transaction.onChain (tx : Transaction) (chain : Chain) : Transaction :=
  { tx with chain := chain }

namespace Sighash.Preimage

/-- A chain enters the message by nothing but the flag at its end. -/
theorem message_onChain_eq_iff_encode {c d : Chain} {a b : UInt32} (hc : c.forkId = some a)
    (hd : d.forkId = some b) (tx : Transaction) {index : Nat} (hindex : index < tx.inputs.length)
    (flag : SighashFlag) (code : Script) (amount : UInt64) :
    message (tx.onChain c) index flag code amount =
        message (tx.onChain d) index flag code amount ↔
      (flag.withForkId a).encode = (flag.withForkId b).encode := by
  have hinputC : (tx.onChain c).inputs[index]? = some tx.inputs[index] :=
    List.getElem?_eq_getElem hindex
  have hinputD : (tx.onChain d).inputs[index]? = some tx.inputs[index] :=
    List.getElem?_eq_getElem hindex
  have hidC : (tx.onChain c).chain.forkId.getD 0 = a := by
    rw [Transaction.onChain, hc]
    rfl
  have hidD : (tx.onChain d).chain.forkId.getD 0 = b := by
    rw [Transaction.onChain, hd]
    rfl
  simp only [message, hinputC, hinputD, hidC, hidD, Except.ok.injEq]
  -- The nine fields before the flag do not look at the chain.
  exact List.append_right_inj _

/-- Fork ids tell messages apart by their low 24 bits. -/
theorem message_onChain_eq_iff {c d : Chain} {a b : UInt32} (hc : c.forkId = some a)
    (hd : d.forkId = some b) (tx : Transaction) {index : Nat} (hindex : index < tx.inputs.length)
    (flag : SighashFlag) (code : Script) (amount : UInt64) :
    message (tx.onChain c) index flag code amount =
        message (tx.onChain d) index flag code amount ↔
      a.toNat % 2 ^ 24 = b.toNat % 2 ^ 24 := by
  rw [message_onChain_eq_iff_encode hc hd tx hindex, SighashFlag.encode_withForkId_eq_iff]

def oneToOne : Transaction where
  version := 2
  inputs := [⟨⟨.replicate 32 0xab, 1⟩, .empty, 0xffffffff, none⟩]
  outputs := [⟨4000, ⟨[0x51]⟩⟩]
  lockTime := 0
  chain := .bitcoin

theorem message_onChain_cash_ne_gold :
    Chain.bitcoinCash.forkId = some 0 ∧ Chain.bitcoinGold.forkId = some 79 ∧
    0 < oneToOne.inputs.length ∧
    message (oneToOne.onChain .bitcoinCash) 0 .all ⟨[0xac]⟩ 5000 ≠
      message (oneToOne.onChain .bitcoinGold) 0 .all ⟨[0xac]⟩ 5000 := by
  have hc : Chain.bitcoinCash.forkId = some 0 := rfl
  have hd : Chain.bitcoinGold.forkId = some 79 := rfl
  have hindex : 0 < oneToOne.inputs.length := by decide
  refine ⟨hc, hd, hindex, fun heq => ?_⟩
  have hbits := (message_onChain_eq_iff hc hd oneToOne hindex .all ⟨[0xac]⟩ 5000).mp heq
  exact absurd hbits (by decide)

/-- A chain with a fork id of 25 bits, the low 24 of them clear. -/
def wideFork : Chain := ⟨"fork-16777216", some 0x1000000, true, 0x00, 0x05⟩

/-- Two valid chains with different fork ids, and one message for both. -/
theorem message_onChain_wideFork_eq_cash :
    Chain.bitcoinCash.validate = .ok () ∧ wideFork.validate = .ok () ∧
    Chain.bitcoinCash.forkId = some 0 ∧ wideFork.forkId = some 0x1000000 ∧
    (0 : UInt32) ≠ 0x1000000 ∧ 0 < oneToOne.inputs.length ∧
    message (oneToOne.onChain .bitcoinCash) 0 .all ⟨[0xac]⟩ 5000 =
      message (oneToOne.onChain wideFork) 0 .all ⟨[0xac]⟩ 5000 := by
  have hindex : 0 < oneToOne.inputs.length := by decide
  have hflag : (SighashFlag.all.withForkId 0).encode =
      (SighashFlag.all.withForkId 0x1000000).encode := by decide
  have hcash : Chain.bitcoinCash.forkId = some 0 := rfl
  have hwide : wideFork.forkId = some 0x1000000 := rfl
  refine ⟨rfl, rfl, hcash, hwide, by decide, hindex, ?_⟩
  exact (message_onChain_eq_iff_encode hcash hwide oneToOne hindex .all ⟨[0xac]⟩ 5000).mpr hflag

end Sighash.Preimage

end UtxoSpend
