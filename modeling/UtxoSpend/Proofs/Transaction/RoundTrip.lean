import Mathlib
import UtxoSpend.Proofs.Wire.RoundTrip
import UtxoSpend.Transaction.Codec

/-!
# One written form for each transaction

Bytes tell of a transaction everything but the chain it belongs to and the outputs its inputs have
found.  Main statement: decoding accepts only what encoding writes, and gives back, from a written
transaction with at least one input and whatever follows it, all that bytes can tell of it.
-/

namespace UtxoSpend

open Read

namespace ReadTx

variable {α : Type} {part : TransactionField} {read : Read α}

theorem field_accepts {written : Bytes} {x : α} (h : Accepts read written x) :
    Accepts (field part read) written x := by
  intro c d hpass
  simp only [field, h c d hpass]

theorem field_consumes {write : α → Bytes} (h : Consumes read write) :
    Consumes (field part read) write := by
  intro c x d hread
  rw [field] at hread
  split at hread
  · rename_i hok
    cases hread
    exact h c x d hok
  · cases hread

end ReadTx

namespace Output

theorem read_accepts {o : Output} (h : o.lockingScript.size < UInt64.size) :
    Accepts read o.encode o := by
  have hencode : o.encode = Wire.u64 o.amount ++ (Wire.counted o.lockingScript.bytes ++ []) := by
    rw [encode, List.append_nil]
  rw [hencode]
  refine (ReadTx.field_accepts (u64_accepts _)).bind ?_
  refine (ReadTx.field_accepts (counted_accepts h)).bind ?_
  exact Accepts.pure o

theorem read_consumes : Consumes read encode := by
  intro c o d h
  obtain ⟨amount, c₁, hamount, h⟩ := Effect.bind_eq_ok.mp h
  obtain ⟨script, c₂, hscript, h⟩ := Effect.bind_eq_ok.mp h
  cases h
  exact (ReadTx.field_consumes u64_consumes _ _ _ hamount).append
    (ReadTx.field_consumes counted_consumes _ _ _ hscript)

end Output

namespace Input

/-- The input as far as its bytes tell: the output it spends has not been found. -/
def forget (i : Input) : Input := { i with spent := none }

theorem read_accepts {i : Input} (h : i.unlockingScript.size < UInt64.size) :
    Accepts read i.encode i.forget := by
  have hencode : i.encode = i.previous.txId.reverse.bytes ++ (Wire.u32 i.previous.index ++
      (Wire.counted i.unlockingScript.bytes ++ (Wire.u32 i.sequence ++ []))) := by
    simp only [encode, OutPoint.encode, List.append_assoc, List.append_nil]
  rw [hencode]
  refine (ReadTx.field_accepts (vector_accepts _)).bind ?_
  refine (ReadTx.field_accepts (u32_accepts _)).bind ?_
  refine (ReadTx.field_accepts (counted_accepts h)).bind ?_
  refine (ReadTx.field_accepts (u32_accepts _)).bind ?_
  rw [ByteVector.reverse_reverse]
  exact Accepts.pure i.forget

theorem read_consumes : Consumes read encode := by
  intro c i d h
  obtain ⟨id, c₁, hid, h⟩ := Effect.bind_eq_ok.mp h
  obtain ⟨index, c₂, hindex, h⟩ := Effect.bind_eq_ok.mp h
  obtain ⟨script, c₃, hscript, h⟩ := Effect.bind_eq_ok.mp h
  obtain ⟨sequence, c₄, hsequence, h⟩ := Effect.bind_eq_ok.mp h
  cases h
  have hprevious := (ReadTx.field_consumes vector_consumes _ _ _ hid).append
    (ReadTx.field_consumes u32_consumes _ _ _ hindex)
  have htail := (ReadTx.field_consumes counted_consumes _ _ _ hscript).append
    (ReadTx.field_consumes u32_consumes _ _ _ hsequence)
  simpa only [encode, OutPoint.encode, ByteVector.reverse_reverse] using hprevious.append htail

end Input

namespace Transaction

/-- The transaction as far as its bytes tell: no input has found what it spends, and it belongs to
the first chain. -/
def written (tx : Transaction) : Transaction :=
  { tx with inputs := tx.inputs.map Input.forget, chain := .bitcoin }

/-- Every count in the written form is a word, as the lengths of lists in memory are. -/
structure Countable (tx : Transaction) : Prop where
  inputs : tx.inputs.length < UInt64.size
  outputs : tx.outputs.length < UInt64.size
  unlocking : ∀ i ∈ tx.inputs, i.unlockingScript.size < UInt64.size
  locking : ∀ o ∈ tx.outputs, o.lockingScript.size < UInt64.size

theorem encode_eq (tx : Transaction) : tx.encode = Wire.u32 tx.version ++
    (CompactSize.ofLength tx.inputs ++ (tx.inputs.flatMap Input.encode ++
      (CompactSize.ofLength tx.outputs ++ (tx.outputs.flatMap Output.encode ++
        (Wire.u32 tx.lockTime ++ []))))) := by
  simp only [encode, List.append_assoc, List.append_nil]

theorem read_accepts {tx : Transaction} (hin : tx.inputs ≠ []) (h : tx.Countable) :
    Accepts read tx.encode tx.written := by
  have hinputs : (UInt64.ofNat tx.inputs.length).toNat = tx.inputs.length :=
    UInt64.toNat_ofNat_of_lt' h.inputs
  have houtputs : (UInt64.ofNat tx.outputs.length).toNat = tx.outputs.length :=
    UInt64.toNat_ofNat_of_lt' h.outputs
  have hcount : UInt64.ofNat tx.inputs.length ≠ 0 := by
    intro hzero
    rw [hzero] at hinputs
    exact hin (List.length_eq_zero_iff.mp hinputs.symm)
  rw [encode_eq]
  refine (ReadTx.field_accepts (u32_accepts _)).bind ?_
  refine (ReadTx.field_accepts (compactSize_accepts _)).bind ?_
  rw [if_neg hcount, hinputs]
  refine (list_accepts _ fun i hi => Input.read_accepts (h.unlocking i hi)).bind ?_
  refine (ReadTx.field_accepts (compactSize_accepts _)).bind ?_
  rw [houtputs]
  refine (list_accepts _ fun o ho => Output.read_accepts (h.locking o ho)).bind ?_
  refine (ReadTx.field_accepts (u32_accepts _)).bind ?_
  rw [List.map_id']
  exact Accepts.pure tx.written

theorem refuseNoInputs_ne_ok {c d : Cursor} {u : Unit} : refuseNoInputs c ≠ .ok u d := by
  intro h
  rw [refuseNoInputs, Effect.get_bind_run] at h
  split at h <;> cases h

structure Stages (c : Cursor) (tx : Transaction) (d : Cursor) : Prop where
  chain : tx.chain = .bitcoin
  fields : ∃ inputCount outputCount c₁ c₂ c₃ c₄ c₅,
    ReadTx.field .version Read.u32 c = .ok tx.version c₁ ∧
    ReadTx.field .inputCount Read.compactSize c₁ = .ok inputCount c₂ ∧
    inputCount ≠ 0 ∧
    Read.list Input.read inputCount.toNat c₂ = .ok tx.inputs c₃ ∧
    ReadTx.field .outputCount Read.compactSize c₃ = .ok outputCount c₄ ∧
    Read.list Output.read outputCount.toNat c₄ = .ok tx.outputs c₅ ∧
    ReadTx.field .lockTime Read.u32 c₅ = .ok tx.lockTime d

theorem stages_of_read {c d : Cursor} {tx : Transaction} (h : read c = .ok tx d) :
    Stages c tx d := by
  obtain ⟨version, c₁, hversion, h⟩ := Effect.bind_eq_ok.mp h
  obtain ⟨inputCount, c₂, hinputCount, h⟩ := Effect.bind_eq_ok.mp h
  split at h
  · obtain ⟨_, _, hrefuse, _⟩ := Effect.bind_eq_ok.mp h
    exact absurd hrefuse refuseNoInputs_ne_ok
  · rename_i hcount
    obtain ⟨inputs, c₃, hinputs, h⟩ := Effect.bind_eq_ok.mp h
    obtain ⟨outputCount, c₄, houtputCount, h⟩ := Effect.bind_eq_ok.mp h
    obtain ⟨outputs, c₅, houtputs, h⟩ := Effect.bind_eq_ok.mp h
    obtain ⟨lockTime, c₆, hlockTime, h⟩ := Effect.bind_eq_ok.mp h
    cases h
    exact ⟨rfl, inputCount, outputCount, c₁, c₂, c₃, c₄, c₅, hversion, hinputCount, hcount, hinputs,
      houtputCount, houtputs, hlockTime⟩

theorem read_consumes : Consumes read encode := by
  intro c tx d h
  obtain ⟨-, inputCount, outputCount, c₁, c₂, c₃, c₄, c₅, hversion, hinputCount, -, hinputs,
    houtputCount, houtputs, hlockTime⟩ := stages_of_read h
  obtain ⟨hins, hinsLength⟩ := list_consumes Input.read_consumes hinputs
  obtain ⟨houts, houtsLength⟩ := list_consumes Output.read_consumes houtputs
  rw [encode_eq]
  refine (ReadTx.field_consumes u32_consumes _ _ _ hversion).append ?_
  rw [CompactSize.ofLength, hinsLength, UInt64.ofNat_toNat]
  refine (ReadTx.field_consumes compactSize_consumes _ _ _ hinputCount).append ?_
  refine hins.append ?_
  rw [CompactSize.ofLength, houtsLength, UInt64.ofNat_toNat]
  refine (ReadTx.field_consumes compactSize_consumes _ _ _ houtputCount).append ?_
  refine houts.append ?_
  exact (ReadTx.field_consumes u32_consumes _ _ _ hlockTime).append (.nil _)

theorem encode_of_decode {bs : Bytes} {tx : Transaction} (h : decode bs = .ok tx) :
    tx.encode = bs := by
  rw [decode] at h
  split at h
  · cases h
  · rename_i t c hread
    split at h
    · rename_i hremaining
      cases h
      have hpass := (read_consumes _ _ _ hread).rest
      rw [List.length_eq_zero_iff.mp hremaining, List.append_nil] at hpass
      exact hpass.symm
    · cases h

theorem read_encode {tx : Transaction} (hin : tx.inputs ≠ []) (h : tx.Countable)
    (position : Nat) (rest : Bytes) :
    read ⟨position, tx.encode ++ rest⟩ = .ok tx.written ⟨position + tx.size, rest⟩ :=
  read_accepts hin h _ _ ⟨rfl, rfl⟩

theorem decode_encode {tx : Transaction} (hin : tx.inputs ≠ []) (h : tx.Countable) :
    decode tx.encode = .ok tx.written := by
  have hread := read_encode hin h 0 []
  rw [List.append_nil] at hread
  rw [decode, Cursor.start, hread]
  rfl

/-- What is decoded is encoded to the same bytes, and a written transaction is read back with
whatever follows it left unread. -/
theorem codec_exact :
    (∀ bs tx, decode bs = .ok tx → tx.encode = bs) ∧
    (∀ tx : Transaction, tx.inputs ≠ [] → tx.Countable →
      (∀ position rest, read ⟨position, tx.encode ++ rest⟩ =
        .ok tx.written ⟨position + tx.size, rest⟩) ∧
      decode tx.encode = .ok tx.written) :=
  ⟨fun _ _ => encode_of_decode, fun _ hin h => ⟨read_encode hin h, decode_encode hin h⟩⟩

/-- A transaction on a chain with a fork id, one of whose inputs has found what it spends. -/
def goldSpend : Transaction where
  version := 2
  inputs := [⟨⟨.ofNat 32 0xab, 1⟩, ⟨[0x51]⟩, 0xfffffffe, some ⟨7, ⟨[0xac]⟩⟩⟩,
    ⟨⟨.ofNat 32 0xcd, 0⟩, .empty, 0, none⟩]
  outputs := [⟨5000000000, ⟨[0x6a, 0x01, 0xff]⟩⟩]
  lockTime := 500000000
  chain := .bitcoinGold

theorem codec_exact_goldSpend : goldSpend.inputs ≠ [] ∧ goldSpend.Countable ∧
    decode goldSpend.encode = .ok goldSpend.written ∧
    goldSpend.written.encode = goldSpend.encode := by
  have hin : goldSpend.inputs ≠ [] := by decide
  have hcount : goldSpend.Countable := ⟨by decide, by decide, by decide, by decide⟩
  obtain ⟨-, hdecode⟩ := codec_exact.2 goldSpend hin hcount
  exact ⟨hin, hcount, hdecode, codec_exact.1 _ _ hdecode⟩

end Transaction

end UtxoSpend
