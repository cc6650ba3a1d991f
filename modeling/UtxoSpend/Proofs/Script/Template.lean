import Mathlib
import UtxoSpend.Machine.SignatureOps
import UtxoSpend.Proofs.Script.Parsing
import UtxoSpend.Script.Template

/-!
# The instructions of the standard locking scripts

Both templates parse whatever hash they hold.  The code that a signature signs in the template for
key hashes is the template itself; only the old digest can cut something out of it, namely the push
of the hash, and only if the signature is the hash.
-/

namespace UtxoSpend

namespace Script

def keyHashInstructions (hash : ByteVector 20) : List Instruction :=
  [⟨Opcode.dup, []⟩, ⟨Opcode.hash160, []⟩, ⟨20, hash.bytes⟩, ⟨Opcode.equalVerify, []⟩,
    ⟨Opcode.checkSig, []⟩]

def scriptHashInstructions (hash : ByteVector 20) : List Instruction :=
  [⟨Opcode.hash160, []⟩, ⟨20, hash.bytes⟩, ⟨Opcode.equal, []⟩]

theorem fits_push20 (hash : ByteVector 20) : Instruction.Fits ⟨20, hash.bytes⟩ := by
  have hwidth : pushLengthWidth 20 = 0 := by decide
  have hlength : (if (20 : Opcode) ≤ Opcode.data75 then (20 : Opcode).toNat else 0) = 20 := by
    decide
  rw [Instruction.Fits, if_pos hwidth, hlength]
  exact hash.length_eq

theorem instructions_payToKeyHash (hash : ByteVector 20) :
    (payToKeyHash hash).instructions = .ok (keyHashInstructions hash) := by
  refine Instruction.parse_eq_ok_iff.mpr ⟨?_, rfl⟩
  simp only [keyHashInstructions, List.forall_mem_cons, fits_push20, true_and]
  decide

theorem instructions_payToScriptHash (hash : ByteVector 20) :
    (payToScriptHash hash).instructions = .ok (scriptHashInstructions hash) := by
  refine Instruction.parse_eq_ok_iff.mpr ⟨?_, rfl⟩
  simp only [scriptHashInstructions, List.forall_mem_cons, fits_push20, true_and]
  decide

theorem size_payToKeyHash (hash : ByteVector 20) : (payToKeyHash hash).size = 25 := by
  simp [payToKeyHash, size]

theorem size_payToScriptHash (hash : ByteVector 20) : (payToScriptHash hash).size = 23 := by
  simp [payToScriptHash, size]

theorem isPayToScriptHash_payToKeyHash (hash : ByteVector 20) :
    (payToKeyHash hash).isPayToScriptHash = false := by
  have hsize : (payToKeyHash hash).bytes.length = 25 := size_payToKeyHash hash
  simp [isPayToScriptHash, hsize]

theorem isPayToScriptHash_payToScriptHash (hash : ByteVector 20) :
    (payToScriptHash hash).isPayToScriptHash = true := by
  have hsize : (payToScriptHash hash).bytes.length = 23 := size_payToScriptHash hash
  have htake : (payToScriptHash hash).bytes.take 2 = [Opcode.hash160, 20] := rfl
  have hdrop : (payToScriptHash hash).bytes.drop 22 = [Opcode.equal] := by
    change (hash.bytes ++ [Opcode.equal]).drop 20 = [Opcode.equal]
    exact List.drop_left' hash.length_eq
  simp [isPayToScriptHash, hsize, htake, hdrop]

end Script

namespace Instruction

theorem encode_push20_eq_iff (hash : ByteVector 20) {data header : Bytes}
    (h : pushHeader data.length = .ok header) :
    encode ⟨20, hash.bytes⟩ = header ++ data ↔ data = hash.bytes := by
  have hencode : encode ⟨20, hash.bytes⟩ = 20 :: hash.bytes := rfl
  rw [hencode]
  constructor
  · intro heq
    unfold pushHeader at h
    split_ifs at h <;> cases h
    · exact (List.cons.inj heq).2.symm
    all_goals exact absurd (List.cons.inj heq).1 (by decide)
  · rintro rfl
    rw [hash.length_eq] at h
    cases h
    rfl

/-- A push of other data stays, and nothing else is a push. -/
theorem deletePush_keyHashInstructions (hash : ByteVector 20) (data : Bytes) :
    deletePush data (Script.keyHashInstructions hash) =
      if data = hash.bytes then
        [⟨Opcode.dup, []⟩, ⟨Opcode.hash160, []⟩, ⟨Opcode.equalVerify, []⟩, ⟨Opcode.checkSig, []⟩]
      else Script.keyHashInstructions hash := by
  cases hheader : pushHeader data.length with
  | error e =>
      have hne : data ≠ hash.bytes := by
        rintro rfl
        rw [hash.length_eq] at hheader
        cases hheader
      rw [deletePush, hheader, if_neg hne]
  | ok header =>
      have hother : ∀ op : Opcode, op.isPush = false →
          (!(op.isPush && encode ⟨op, []⟩ == header ++ data)) = true := by
        intro op hop
        simp [hop]
      have hpush : (!((20 : Opcode).isPush && encode ⟨20, hash.bytes⟩ == header ++ data)) =
          decide (data ≠ hash.bytes) := by
        have hiff := encode_push20_eq_iff hash hheader
        have h20 : (20 : Opcode).isPush = true := by decide
        rw [h20, Bool.true_and, beq_eq_decide, decide_eq_decide.mpr hiff, decide_not]
      simp only [deletePush, hheader, Script.keyHashInstructions, List.filter_cons,
        hother _ (show Opcode.dup.isPush = false from by decide),
        hother _ (show Opcode.hash160.isPush = false from by decide),
        hother _ (show Opcode.equalVerify.isPush = false from by decide),
        hother _ (show Opcode.checkSig.isPush = false from by decide), hpush, List.filter_nil]
      by_cases hdata : data = hash.bytes <;> simp [hdata]

end Instruction

def Script.keyHashCode (env : Env) (hash : ByteVector 20) (signature : Bytes) : Script :=
  if env.has .forkId = false ∧ signature = hash.bytes then
    ⟨[Opcode.dup, Opcode.hash160, Opcode.equalVerify, Opcode.checkSig]⟩
  else Script.payToKeyHash hash

theorem Script.keyHashCode_of_apart {env : Env} {hash : ByteVector 20} {signature : Bytes}
    (h : env.has .forkId = false → signature ≠ hash.bytes) :
    keyHashCode env hash signature = payToKeyHash hash := by
  rw [keyHashCode, if_neg]
  rintro ⟨hfork, heq⟩
  exact h hfork heq

theorem Exec.signedCode_keyHash (env : Env) (hash : ByteVector 20) (signature : Bytes) :
    signedCode env (Script.keyHashInstructions hash) [signature] =
      Script.keyHashCode env hash signature := by
  unfold signedCode Script.keyHashCode
  cases hfork : env.has .forkId
  · simp only [List.foldl_cons, List.foldl_nil, Instruction.deletePush_keyHashInstructions]
    by_cases hsig : signature = hash.bytes
    · simp only [hsig, if_true, and_self]
      rfl
    · simp only [hsig, if_false, and_false]
      rfl
  · rfl

end UtxoSpend
