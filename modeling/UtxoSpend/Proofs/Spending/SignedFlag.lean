import Mathlib
import UtxoSpend.Proofs.Sighash.FlagCodec
import UtxoSpend.Proofs.Spending.IndependentSigning

/-!
# The flag of a signature

A flag leaves with a signature as one byte and comes back from it on the chain that checks the
signature; where it is hashed it is a word.  Main statement: both forms are read back as the flags
they were written for, so an input is checked under the flag that it was signed under.
-/

namespace UtxoSpend.Spending

variable {resolver : Resolver} {index : Nat} {key : PrivateKey} {flag : SighashFlag}
  {s t : Spending}

/-- The unlocking script that signing makes pushes a signature with the hash type of the flag, and
then the key. -/
theorem instructions_of_unlockingScript {digest : ByteVector 32} {script : Script}
    (h : unlockingScript key digest flag = .ok script) :
    ∃ signature, script.instructions =
      .ok [.push (Der.encode signature ++ [flag.toByte]), .push key.publicKey.compressed] := by
  -- The functions are hidden first: a comparison of their values would have them computed.
  generalize hdef : unlockingScript = unlocking at h
  delta unlockingScript at hdef
  generalize PrivateKey.sign = sign at hdef
  subst hdef
  beta_reduce at h
  cases hsign : sign key digest.bytes with
  | error e =>
      rw [hsign] at h
      cases h
  | ok signature =>
      obtain ⟨script', hscript, -, hparse⟩ :=
        Script.unlockKeyHash_spec signature flag key.publicKey
      rw [hsign] at h
      dsimp only at h
      rw [hscript] at h
      cases h
      exact ⟨signature, hparse⟩

/-- The input at `index` carries a signature under the flag, and the transaction takes its hash type
for this flag. -/
structure SignedUnder (flag : SighashFlag) (index : Nat) (key : PrivateKey) (tx : Transaction) :
    Prop where
  carries : ∃ input signature, tx.inputs[index]? = some input ∧
    input.unlockingScript.instructions =
      .ok [.push (Der.encode signature ++ [flag.toByte]), .push key.publicKey.compressed]
  checked : ∀ amount check, check.hashType = flag.toByte →
    tx.checkedDigest amount check =
      some (Sighash.digest tx check.inputIndex flag check.code amount)

theorem checkedDigest_of_hashType {tx : Transaction} {amount : UInt64} {check : SignatureCheck}
    (hflag : flag.forkId = tx.chain.forkId) (h : check.hashType = flag.toByte) :
    tx.checkedDigest amount check =
      some (Sighash.digest tx check.inputIndex flag check.code amount) := by
  rw [Transaction.checkedDigest, h, ← hflag, SighashFlag.ofByte_toByte]

/-- Whatever signing finds out about the input, it leaves a signature under the flag of the
chain. -/
theorem signedUnder_of_signInput {valid : Bool}
    (h : signInput resolver index key flag s = .ok valid t) :
    SignedUnder (flagOn s.transaction.chain flag) index key t.transaction := by
  have hchain : t.transaction.chain = s.transaction.chain :=
    Transaction.chain_eq_of_bare_eq ((signInput_bare resolver index key flag).of_ok h).view
  obtain ⟨e, u, -, hrun, -⟩ | ⟨script, u, hsigned, hrun, hinstalls⟩ :=
    signInput_stages resolver index key flag s
  · cases hrun.symm.trans h
  · have hscript : ∃ digest,
        unlockingScript key digest (flagOn s.transaction.chain flag) = .ok script := by
      unfold signedScript at hsigned
      split at hsigned
      · cases hsigned
      · exact ⟨_, hsigned⟩
    obtain ⟨digest, hscript⟩ := hscript
    obtain ⟨signature, hparse⟩ := instructions_of_unlockingScript hscript
    obtain ⟨-, input, output, -, -, hget⟩ := hinstalls
    -- The verification at the end may find an output, but does not touch the script.
    have hverify := (verifyInput_forget resolver index).of_ok (hrun.symm.trans h)
    have hscripts := congrArg (·[index]?)
      (Transaction.unlockingScripts_of_forget_eq hverify.view)
    simp only [List.getElem?_map, hget, Option.map_some, Option.map_eq_some_iff] at hscripts
    obtain ⟨input', hinput', hsame⟩ := hscripts
    refine ⟨⟨input', signature, hinput', by rw [hsame, hparse]⟩, ?_⟩
    exact fun amount check htype => checkedDigest_of_hashType (by rw [hchain]; rfl) htype

end UtxoSpend.Spending

namespace UtxoSpend.SighashFlag

open Spending

/-- Words and hash types are read back as their flags; a word loses a fork id only above its low 24
bits, and a hash type none, because the chain has it.  The words of no flag are refused.  So an
input that was signed is checked under the flag that was signed, with the fork id of the chain. -/
theorem encodings_read_back :
    (∀ value flag, ofUInt32 value = .ok flag ↔ flag.KeepsForkId ∧ flag.toUInt32 = value) ∧
    (∀ value e, ofUInt32 value = .error e ↔ e = .badSighashFlag value ∧ Meaningless value) ∧
    (∀ flag, ofByte flag.toByte flag.forkId = .ok flag) ∧
    ∀ resolver index key flag s valid t, signInput resolver index key flag s = .ok valid t →
      SignedUnder (flagOn s.transaction.chain flag) index key t.transaction :=
  ⟨fun _ _ => ofUInt32_eq_ok_iff, fun _ _ => ofUInt32_eq_error_iff, ofByte_toByte,
    fun _ _ _ _ _ _ _ => signedUnder_of_signInput⟩

/-- A fork id of 24 bits in a word, a word with a fork id but not its bit, and an input that is
signed under a flag with the fork id of another chain. -/
theorem encodings_read_back_spendOne :
    ofUInt32 0xffffffc3 = .ok ⟨.single, true, some 0xffffff⟩ ∧
    ofUInt32 0x00000181 = .error (.badSighashFlag 0x00000181) ∧
    ∃ t, signInput payToOne 0 oneKey foreignFlag spendOne = .ok true t ∧
      SignedUnder .all 0 oneKey t.transaction := by
  obtain ⟨hread, hrefused, -, hsigned⟩ := encodings_read_back
  refine ⟨(hread _ _).mpr ⟨?_, by decide⟩, (hrefused _ _).mpr ⟨rfl, ?_⟩, ?_⟩
  · intro id hid
    cases hid
    decide
  · exact .strayForkId (by decide) (by decide)
  · have hanswer := answer_signInput_spendOne
    cases hrun : signInput payToOne 0 oneKey foreignFlag spendOne with
    | error e t =>
        rw [hrun] at hanswer
        cases hanswer
    | ok valid t =>
        rw [hrun] at hanswer
        cases hanswer
        exact ⟨t, rfl, hsigned _ _ _ _ _ _ _ hrun⟩

end UtxoSpend.SighashFlag
