import Mathlib
import UtxoSpend.Machine.SignatureOps
import UtxoSpend.Sighash.Digest

/-!
# What the digests depend on

A flag is recovered from its hash type once the chain's fork id is known, and no digest depends on
unlocking scripts or on remembered outputs.  Main statement: an input that exists has a digest under
every flag, except where the first algorithm wants an output at the place of the input and there is
none.
-/

namespace UtxoSpend

namespace SighashFlag

theorem toByte_some (base : SighashBase) (anyoneCanPay : Bool) (id : UInt32) :
    toByte ⟨base, anyoneCanPay, some id⟩ = toByte ⟨base, anyoneCanPay, some 0⟩ := rfl

theorem ofUInt32_toByte (flag : SighashFlag) :
    ofUInt32 flag.toByte.toUInt32 = .ok { flag with forkId := flag.forkId.map fun _ => 0 } := by
  obtain ⟨base, anyoneCanPay, forkId⟩ := flag
  cases forkId with
  | none => cases base <;> cases anyoneCanPay <;> rfl
  | some id =>
      rw [toByte_some]
      cases base <;> cases anyoneCanPay <;> rfl

theorem ofByte_toByte (flag : SighashFlag) : ofByte flag.toByte flag.forkId = .ok flag := by
  rw [ofByte, ofUInt32_toByte]
  obtain ⟨base, anyoneCanPay, forkId⟩ := flag
  cases forkId <;> rfl

theorem toByte_and_forkIdBit {flag : SighashFlag} (h : flag.forkId.isSome = true) :
    flag.toByte &&& forkIdBit ≠ 0 := by
  obtain ⟨base, anyoneCanPay, forkId⟩ := flag
  cases forkId with
  | none => cases h
  | some id =>
      rw [toByte_some]
      cases base <;> cases anyoneCanPay <;> decide

end SighashFlag

/-- The input without its unlocking script and without the output that it remembers. -/
def Input.bare (input : Input) : Input := { input with unlockingScript := .empty, spent := none }

/-- The transaction as signatures see it. -/
def Transaction.bare (tx : Transaction) : Transaction :=
  { tx with inputs := tx.inputs.map Input.bare }

namespace Sighash

theorem Legacy.writeInputsFrom_bare (i index : Nat) (base : SighashBase) (code : Script)
    (inputs : List Input) :
    writeInputsFrom i index base code (inputs.map Input.bare) =
      writeInputsFrom i index base code inputs := by
  induction inputs generalizing i with
  | nil => rfl
  | cons input inputs ih =>
      rw [List.map_cons, writeInputsFrom, writeInputsFrom, ih]
      rfl

theorem Legacy.message_bare (tx : Transaction) (index : Nat) (flag : SighashFlag)
    (code : Script) : message tx.bare index flag code = message tx index flag code := by
  have hcount : CompactSize.ofLength tx.bare.inputs = CompactSize.ofLength tx.inputs := by
    rw [CompactSize.ofLength, CompactSize.ofLength, Transaction.bare, List.length_map]
  have hinputs : writeInputsFrom 0 index flag.base code tx.bare.inputs =
      writeInputsFrom 0 index flag.base code tx.inputs :=
    writeInputsFrom_bare 0 index flag.base code tx.inputs
  have hget : tx.bare.inputs[index]? = tx.inputs[index]?.map Input.bare := List.getElem?_map
  unfold message
  rw [hget]
  cases tx.inputs[index]? with
  | none =>
      rw [Option.map_none, Transaction.bare, List.length_map]
  | some signed =>
      rw [Option.map_some]
      dsimp only
      unfold writeInputs
      rw [hcount, hinputs]
      rfl

theorem Preimage.message_bare (tx : Transaction) (index : Nat) (flag : SighashFlag)
    (code : Script) (amount : UInt64) :
    message tx.bare index flag code amount = message tx index flag code amount := by
  have hprevious : previousDigest tx.bare flag = previousDigest tx flag := by
    rw [previousDigest, previousDigest, Transaction.bare, List.flatMap_map]
    rfl
  have hsequence : sequenceDigest tx.bare flag = sequenceDigest tx flag := by
    rw [sequenceDigest, sequenceDigest, Transaction.bare, List.flatMap_map]
    rfl
  have hget : tx.bare.inputs[index]? = tx.inputs[index]?.map Input.bare := List.getElem?_map
  unfold message
  rw [hget]
  cases tx.inputs[index]? with
  | none =>
      rw [Option.map_none, Transaction.bare, List.length_map]
  | some signed =>
      rw [Option.map_some, hprevious, hsequence]
      rfl

/-- No digest depends on unlocking scripts or remembered outputs. -/
theorem digest_bare (tx : Transaction) (index : Nat) (flag : SighashFlag) (code : Script)
    (amount : UInt64) :
    digest tx.bare index flag code amount = digest tx index flag code amount := by
  rw [digest, digest, message, message, Legacy.message_bare, Preimage.message_bare]
  rfl

theorem digest_eq_of_bare_eq {a b : Transaction} (h : a.bare = b.bare) (index : Nat)
    (flag : SighashFlag) (code : Script) (amount : UInt64) :
    digest a index flag code amount = digest b index flag code amount := by
  rw [← digest_bare a, ← digest_bare b, h]

/-- The first algorithm is asked to sign the output at the place of an input, and there is none. -/
def LacksOutput (tx : Transaction) (index : Nat) (flag : SighashFlag) : Prop :=
  tx.chain.usesPreimage = false ∧ flag.base = .single ∧ tx.outputs.length ≤ index

theorem digest_of_lacksOutput {tx : Transaction} {index : Nat} {flag : SighashFlag} {input : Input}
    (hinput : tx.inputs[index]? = some input) (h : LacksOutput tx index flag) (code : Script)
    (amount : UInt64) :
    digest tx index flag code amount =
      .error (.singleWithoutOutput index tx.outputs.length) := by
  obtain ⟨hchain, hbase, hindex⟩ := h
  have hnone : tx.outputs[index]? = none := List.getElem?_eq_none hindex
  have hmessage : Legacy.message tx index flag code =
      .error (.singleWithoutOutput index tx.outputs.length) := by
    simp only [Legacy.message, hinput, Legacy.writeOutputs, hbase, hnone]
  rw [digest, message, hchain, if_neg (by decide), hmessage]
  rfl

theorem exists_digest {tx : Transaction} {index : Nat} {flag : SighashFlag} {input : Input}
    (hinput : tx.inputs[index]? = some input) (h : ¬LacksOutput tx index flag) (code : Script)
    (amount : UInt64) : ∃ d, digest tx index flag code amount = .ok d := by
  have hmessage : ∃ m, message tx index flag code amount = .ok m := by
    unfold message
    cases hchain : tx.chain.usesPreimage with
    | true =>
        rw [if_pos rfl]
        unfold Preimage.message
        rw [hinput]
        exact ⟨_, rfl⟩
    | false =>
        rw [if_neg (by decide)]
        unfold Legacy.message
        rw [hinput]
        dsimp only
        cases hbase : flag.base with
        | all => exact ⟨_, rfl⟩
        | none => exact ⟨_, rfl⟩
        | single =>
            have hindex : index < tx.outputs.length := by
              by_contra hge
              exact h ⟨hchain, hbase, Nat.le_of_not_lt hge⟩
            rw [Legacy.writeOutputs, List.getElem?_eq_getElem hindex]
            exact ⟨_, rfl⟩
  obtain ⟨m, hm⟩ := hmessage
  rw [digest, hm]
  exact ⟨_, rfl⟩

end Sighash

end UtxoSpend
