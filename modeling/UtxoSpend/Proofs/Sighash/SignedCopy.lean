import Mathlib
import UtxoSpend.Sighash.Digest

/-!
# The copy that the first digest hashes

The first algorithm writes what it hashes field by field and never builds the copy of the
transaction that it stands for.  Here the copy is an ordinary transaction.  Main statement: the
digest is the double hash of its written form and the flag, or the one failure there is.
-/

namespace UtxoSpend

def Output.null : Output := ⟨0xffffffffffffffff, .empty⟩

namespace Transaction

/-- An input in the copy: the signed one carries the signed code and the others nothing. Unless
everything is signed, the others have their sequence cleared. -/
def signedCopyInput (signed : Bool) (base : SighashBase) (code : Script) (input : Input) : Input :=
  { input with
    unlockingScript := if signed then code else .empty
    sequence := if signed ∨ base = .all then input.sequence else 0 }

def signedCopyInputs (tx : Transaction) (index : Nat) (flag : SighashFlag) (code : Script) :
    List Input :=
  let inputs := tx.inputs.mapIdx fun i => signedCopyInput (i == index) flag.base code
  if flag.anyoneCanPay then inputs[index]?.toList else inputs

def signedCopyOutputs (tx : Transaction) (index : Nat) : SighashBase → List Output
  | .all => tx.outputs
  | .none => []
  | .single => List.replicate index .null ++ tx.outputs[index]?.toList

def signedCopy (tx : Transaction) (index : Nat) (flag : SighashFlag) (code : Script) :
    Transaction :=
  { tx with
    inputs := tx.signedCopyInputs index flag code
    outputs := tx.signedCopyOutputs index flag.base }

theorem signedCopyInputs_of_open {tx : Transaction} {index : Nat} {input : Input}
    (hinput : tx.inputs[index]? = some input) {flag : SighashFlag}
    (hopen : flag.anyoneCanPay = true) (code : Script) :
    tx.signedCopyInputs index flag code = [signedCopyInput true flag.base code input] := by
  rw [signedCopyInputs, hopen, if_pos rfl, List.getElem?_mapIdx, hinput, beq_self_eq_true]
  rfl

theorem getElem?_signedCopyInputs {tx : Transaction} {index : Nat} {flag : SighashFlag}
    {code : Script} (hclosed : flag.anyoneCanPay = false) (j : Nat) :
    (tx.signedCopyInputs index flag code)[j]? =
      tx.inputs[j]?.map (signedCopyInput (j == index) flag.base code) := by
  rw [signedCopyInputs, hclosed, if_neg (by decide), List.getElem?_mapIdx]

end Transaction

open Transaction

namespace Sighash.Legacy

/-! ## Inputs -/

theorem encode_signedCopyInput (signed : Bool) (base : SighashBase) (code : Script)
    (input : Input) :
    (signedCopyInput signed base code input).encode = writeInput signed base code input := by
  cases signed with
  | true => rfl
  | false => cases base <;> rfl

theorem writeInputsFrom_eq (i index : Nat) (base : SighashBase) (code : Script)
    (inputs : List Input) :
    writeInputsFrom i index base code inputs =
      (inputs.mapIdx fun j => signedCopyInput (i + j == index) base code).flatMap
        Input.encode := by
  induction inputs generalizing i with
  | nil => rfl
  | cons input inputs ih =>
      -- What stands at `j + 1` in the whole list stands at `j` in the rest, from `i + 1` on.
      have hshift : (fun j => signedCopyInput (i + (j + 1) == index) base code) =
          fun j => signedCopyInput (i + 1 + j == index) base code := by
        funext j
        rw [Nat.add_right_comm, Nat.add_assoc]
      rw [writeInputsFrom, ih, List.mapIdx_cons, List.flatMap_cons, encode_signedCopyInput,
        Nat.add_zero i, hshift]

theorem writeInputs_eq {tx : Transaction} {index : Nat} {signed : Input}
    (hsigned : tx.inputs[index]? = some signed) (flag : SighashFlag) (code : Script) :
    writeInputs tx index signed flag code =
      CompactSize.ofLength (tx.signedCopyInputs index flag code) ++
        (tx.signedCopyInputs index flag code).flatMap Input.encode := by
  unfold writeInputs signedCopyInputs
  cases flag.anyoneCanPay with
  | true =>
      have hget : (tx.inputs.mapIdx fun i => signedCopyInput (i == index) flag.base code)[index]? =
          some (signedCopyInput true flag.base code signed) := by
        rw [List.getElem?_mapIdx, hsigned, beq_self_eq_true]
        rfl
      rw [if_pos rfl, if_pos rfl, hget, Option.toList_some, List.flatMap_singleton,
        encode_signedCopyInput]
      rfl
  | false =>
      have hwritten := writeInputsFrom_eq 0 index flag.base code tx.inputs
      simp only [Nat.zero_add] at hwritten
      rw [if_neg (by decide), if_neg (by decide), hwritten, CompactSize.ofLength,
        CompactSize.ofLength, List.length_mapIdx]

/-! ## Outputs -/

theorem encode_null : Output.null.encode = blankOutput := rfl

theorem flatMap_replicate_null (n : Nat) :
    (List.replicate n Output.null).flatMap Output.encode =
      (List.replicate n blankOutput).flatten := by
  rw [List.flatMap_def, List.map_replicate, encode_null]

theorem writeOutputs_eq {tx : Transaction} {index : Nat} {base : SighashBase}
    (h : base = .single → index < tx.outputs.length) :
    writeOutputs tx index base =
      .ok (CompactSize.ofLength (tx.signedCopyOutputs index base) ++
        (tx.signedCopyOutputs index base).flatMap Output.encode) := by
  cases base with
  | all => rfl
  | none => rfl
  | single =>
      have hget := List.getElem?_eq_getElem (h rfl)
      have hlength : (tx.signedCopyOutputs index .single).length = index + 1 := by
        rw [signedCopyOutputs, hget, List.length_append, List.length_replicate]
        rfl
      rw [CompactSize.ofLength, hlength, signedCopyOutputs, writeOutputs, hget,
        Option.toList_some, List.flatMap_append, flatMap_replicate_null, List.flatMap_singleton]

theorem writeOutputs_of_le {tx : Transaction} {index : Nat} (h : tx.outputs.length ≤ index) :
    writeOutputs tx index .single =
      .error (.singleWithoutOutput index tx.outputs.length) := by
  rw [writeOutputs, List.getElem?_eq_none h]

/-! ## The whole message -/

/-- What is hashed is the written copy, with the flag after it. -/
theorem message_eq_encode_signedCopy {tx : Transaction} {index : Nat}
    (hindex : index < tx.inputs.length) {flag : SighashFlag}
    (h : flag.base = .single → index < tx.outputs.length) (code : Script) :
    message tx index flag code = .ok ((tx.signedCopy index flag code).encode ++ flag.encode) := by
  have hsigned := List.getElem?_eq_getElem hindex
  simp only [message, hsigned, writeOutputs_eq h, writeInputs_eq hsigned]
  rfl

theorem message_of_lacking_output {tx : Transaction} {index : Nat}
    (hindex : index < tx.inputs.length) {flag : SighashFlag} (hbase : flag.base = .single)
    (h : tx.outputs.length ≤ index) (code : Script) :
    message tx index flag code = .error (.singleWithoutOutput index tx.outputs.length) := by
  have hsigned := List.getElem?_eq_getElem hindex
  simp only [message, hsigned, hbase, writeOutputs_of_le h]

end Sighash.Legacy

namespace Sighash

/-- The first digest of an input that exists: it fails exactly where the output at the place of the
input is to be signed and there is none, and else is the hash of the copy and the flag. -/
theorem digest_eq_hash_signedCopy {tx : Transaction} (hchain : tx.chain.usesPreimage = false)
    {index : Nat} (hindex : index < tx.inputs.length) (flag : SighashFlag) (code : Script)
    (amount : UInt64) :
    digest tx index flag code amount =
      if flag.base = .single ∧ tx.outputs.length ≤ index then
        .error (.singleWithoutOutput index tx.outputs.length)
      else .ok (Hash.sha256d ((tx.signedCopy index flag code).encode ++ flag.encode)) := by
  rw [digest, message, hchain, if_neg (by decide)]
  by_cases hlacks : flag.base = .single ∧ tx.outputs.length ≤ index
  · rw [if_pos hlacks, Legacy.message_of_lacking_output hindex hlacks.1 hlacks.2]
    rfl
  · have houtput : flag.base = .single → index < tx.outputs.length := by
      intro hbase
      by_contra hge
      exact hlacks ⟨hbase, Nat.le_of_not_lt hge⟩
    rw [if_neg hlacks, Legacy.message_eq_encode_signedCopy hindex houtput]
    rfl

def twoByTwo : Transaction where
  version := 1
  inputs := [⟨⟨.ofNat 32 0x11, 0⟩, ⟨[0x51]⟩, 5, none⟩, ⟨⟨.ofNat 32 0x22, 1⟩, ⟨[0x52]⟩, 6, none⟩]
  outputs := [⟨1000, ⟨[0x51]⟩⟩, ⟨2000, ⟨[0x52]⟩⟩]
  lockTime := 17
  chain := .bitcoin

def twoByTwoCopy : Transaction where
  version := 1
  inputs := [⟨⟨.ofNat 32 0x11, 0⟩, .empty, 0, none⟩, ⟨⟨.ofNat 32 0x22, 1⟩, ⟨[0xac]⟩, 6, none⟩]
  outputs := [⟨0xffffffffffffffff, .empty⟩, ⟨2000, ⟨[0x52]⟩⟩]
  lockTime := 17
  chain := .bitcoin

theorem digest_eq_hash_signedCopy_twoByTwo :
    twoByTwo.chain.usesPreimage = false ∧ 1 < twoByTwo.inputs.length ∧
    digest twoByTwo 1 ⟨.single, false, none⟩ ⟨[0xac]⟩ 7 =
      .ok (Hash.sha256d (twoByTwoCopy.encode ++ [3, 0, 0, 0])) := by
  have hchain : twoByTwo.chain.usesPreimage = false := rfl
  have hindex : 1 < twoByTwo.inputs.length := by decide
  have hcopy : twoByTwo.signedCopy 1 ⟨.single, false, none⟩ ⟨[0xac]⟩ = twoByTwoCopy := by
    decide +kernel
  have hflag : SighashFlag.encode ⟨.single, false, none⟩ = [3, 0, 0, 0] := by decide +kernel
  have h := digest_eq_hash_signedCopy hchain hindex ⟨.single, false, none⟩ ⟨[0xac]⟩ 7
  rw [if_neg (by decide), hcopy, hflag] at h
  exact ⟨hchain, hindex, h⟩

end Sighash

end UtxoSpend
