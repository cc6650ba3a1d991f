import Mathlib
import UtxoSpend.Proofs.Sighash.FlagWord
import UtxoSpend.Proofs.Transaction.Unique
import UtxoSpend.Sighash.Preimage

/-!
# The fields of the fork-id message

The message is the written form of a record of ten fields.  Three of them are digests, each of a
part of the transaction or of nothing, as the flag says.  Main statement: the written form tells all
ten fields, although a script of any length stands in the middle.
-/

namespace UtxoSpend

namespace Transaction

/-- What every signature signs of a transaction: its version, its lock time, and of the signed
input the reference and the sequence. -/
structure AgreeAt (a : Transaction) (i : Nat) (b : Transaction) (j : Nat) : Prop where
  version : a.version = b.version
  lockTime : a.lockTime = b.lockTime
  signed : ∃ x y, a.inputs[i]? = some x ∧ b.inputs[j]? = some y ∧
    x.previous = y.previous ∧ x.sequence = y.sequence

/-- What a flag signs beyond that: the references unless inputs are left open, the sequences if
everything is signed, and all outputs, or the one at the place of the input, or none. -/
structure AgreeUnder (flag : SighashFlag) (a : Transaction) (i : Nat) (b : Transaction) (j : Nat) :
    Prop where
  references : flag.anyoneCanPay = false →
    a.inputs.map Input.previous = b.inputs.map Input.previous
  sequences : flag.anyoneCanPay = false → flag.base = .all →
    a.inputs.map Input.sequence = b.inputs.map Input.sequence
  outputs : flag.base = .all → a.outputs = b.outputs
  output : flag.base = .single → a.outputs[i]? = b.outputs[j]?

end Transaction

namespace Sighash.Preimage

/-! ## Parts and their digests -/

def partDigest : Option Bytes → ByteVector 32
  | some part => Hash.sha256d part
  | none => noDigest

def previousPart (tx : Transaction) (flag : SighashFlag) : Option Bytes :=
  if flag.anyoneCanPay then none
  else some ((tx.inputs.map Input.previous).flatMap OutPoint.encode)

def sequencePart (tx : Transaction) (flag : SighashFlag) : Option Bytes :=
  if !flag.anyoneCanPay && flag.base == .all then
    some ((tx.inputs.map Input.sequence).flatMap Wire.u32)
  else none

def outputPart (tx : Transaction) (index : Nat) (flag : SighashFlag) : Option Bytes :=
  match flag.base with
  | .all => some (tx.outputs.flatMap Output.encode)
  | .none => none
  | .single => tx.outputs[index]?.map Output.encode

def hashedParts (tx : Transaction) (index : Nat) (flag : SighashFlag) : List Bytes :=
  (previousPart tx flag).toList ++ ((sequencePart tx flag).toList ++
    (outputPart tx index flag).toList)

theorem previousDigest_eq (tx : Transaction) (flag : SighashFlag) :
    previousDigest tx flag = partDigest (previousPart tx flag) := by
  unfold previousDigest previousPart
  rw [List.flatMap_map]
  cases flag.anyoneCanPay <;> rfl

theorem sequenceDigest_eq (tx : Transaction) (flag : SighashFlag) :
    sequenceDigest tx flag = partDigest (sequencePart tx flag) := by
  unfold sequenceDigest sequencePart
  rw [List.flatMap_map]
  cases (!flag.anyoneCanPay && flag.base == .all) <;> rfl

theorem outputDigest_eq (tx : Transaction) (index : Nat) (flag : SighashFlag) :
    outputDigest tx index flag = partDigest (outputPart tx index flag) := by
  unfold outputDigest outputPart
  cases flag.base with
  | all => rfl
  | none => rfl
  | single => cases tx.outputs[index]? <;> rfl

/-- On these strings the hash does what is asked of it: it tells them apart, and it gives none of
them the digest that stands for nothing. -/
structure CollisionFree (strings : List Bytes) : Prop where
  eq_of_hash_eq : ∀ x ∈ strings, ∀ y ∈ strings, Hash.sha256d x = Hash.sha256d y → x = y
  hash_ne_noDigest : ∀ x ∈ strings, Hash.sha256d x ≠ noDigest

theorem CollisionFree.eq_of_partDigest_eq {strings : List Bytes} (h : CollisionFree strings)
    {p q : Option Bytes} (hp : p.toList ⊆ strings) (hq : q.toList ⊆ strings)
    (heq : partDigest p = partDigest q) : p = q := by
  cases p with
  | none =>
      cases q with
      | none => rfl
      | some y =>
          have hy : y ∈ strings := hq (by simp)
          exact absurd heq.symm (h.hash_ne_noDigest y hy)
  | some x =>
      have hx : x ∈ strings := hp (by simp)
      cases q with
      | none => exact absurd heq (h.hash_ne_noDigest x hx)
      | some y =>
          have hy : y ∈ strings := hq (by simp)
          rw [h.eq_of_hash_eq x hx y hy heq]

theorem CollisionFree.of_nodup {distinct strings : List Bytes} (hsubset : strings ⊆ distinct)
    (h : (noDigest :: distinct.map Hash.sha256d).Nodup) : CollisionFree strings where
  eq_of_hash_eq := by
    intro x hx y hy heq
    exact List.inj_on_of_nodup_map (List.nodup_cons.mp h).2 (hsubset hx) (hsubset hy) heq
  hash_ne_noDigest := by
    intro x hx heq
    exact (List.nodup_cons.mp h).1 (heq ▸ List.mem_map_of_mem (hsubset hx))

/-! ## The record -/

structure Fields where
  version : UInt32
  previousDigest : ByteVector 32
  sequenceDigest : ByteVector 32
  reference : OutPoint
  code : Bytes
  amount : UInt64
  sequence : UInt32
  outputDigest : ByteVector 32
  lockTime : UInt32
  flagWord : UInt32

def Fields.encode (f : Fields) : Bytes :=
  Wire.u32 f.version
    ++ f.previousDigest.bytes
    ++ f.sequenceDigest.bytes
    ++ f.reference.encode
    ++ Wire.counted f.code
    ++ Wire.u64 f.amount
    ++ Wire.u32 f.sequence
    ++ f.outputDigest.bytes
    ++ Wire.u32 f.lockTime
    ++ Wire.u32 f.flagWord

/-- The script is the only field whose width can differ, so its end is found from the back. -/
theorem Fields.encode_injective : Function.Injective Fields.encode := by
  rintro ⟨_, _, _, _, _, _, _, _, _, _⟩ ⟨_, _, _, _, _, _, _, _, _, _⟩ h
  simp only [encode, List.append_assoc] at h
  obtain ⟨hversion, h⟩ := Wire.u32_append_inj h
  obtain ⟨hprevious, h⟩ := Wire.bytes_append_inj h
  obtain ⟨hsequences, h⟩ := Wire.bytes_append_inj h
  obtain ⟨hreference, h⟩ := OutPoint.encode_append_inj h
  obtain ⟨hcode, h⟩ := Wire.counted_append_inj (by simp) h
  obtain ⟨hamount, h⟩ := Wire.u64_append_inj h
  obtain ⟨hsequence, h⟩ := Wire.u32_append_inj h
  obtain ⟨houtputs, h⟩ := Wire.bytes_append_inj h
  obtain ⟨hlockTime, h⟩ := Wire.u32_append_inj h
  have hword := Wire.u32_inj.mp h
  rw [Fields.mk.injEq]
  exact ⟨hversion, hprevious, hsequences, hreference, hcode, hamount, hsequence, houtputs,
    hlockTime, hword⟩

def fields (tx : Transaction) (input : Input) (index : Nat) (flag : SighashFlag) (code : Script)
    (amount : UInt64) : Fields where
  version := tx.version
  previousDigest := partDigest (previousPart tx flag)
  sequenceDigest := partDigest (sequencePart tx flag)
  reference := input.previous
  code := code.bytes
  amount := amount
  sequence := input.sequence
  outputDigest := partDigest (outputPart tx index flag)
  lockTime := tx.lockTime
  flagWord := (flag.withForkId (tx.chain.forkId.getD 0)).toUInt32

theorem message_eq_encode_fields {tx : Transaction} {index : Nat} {input : Input}
    (h : tx.inputs[index]? = some input) (flag : SighashFlag) (code : Script) (amount : UInt64) :
    message tx index flag code amount = .ok (fields tx input index flag code amount).encode := by
  simp only [message, h, previousDigest_eq, sequenceDigest_eq, outputDigest_eq]
  rfl

theorem exists_fields_of_message {tx : Transaction} {index : Nat} {flag : SighashFlag}
    {code : Script} {amount : UInt64} {m : Bytes} (h : message tx index flag code amount = .ok m) :
    ∃ input, tx.inputs[index]? = some input ∧
      (fields tx input index flag code amount).encode = m := by
  cases hinput : tx.inputs[index]? with
  | none =>
      simp only [message, hinput] at h
      cases h
  | some input =>
      rw [message_eq_encode_fields hinput, Except.ok.injEq] at h
      exact ⟨input, rfl, h⟩

end Sighash.Preimage

end UtxoSpend
