import Mathlib
import UtxoSpend.Proofs.Sighash.Fields
import UtxoSpend.Proofs.Sighash.SignedCopy

/-!
# What a digest does not depend on

Two transactions that agree in what a flag signs give the same digest, whatever else they contain.
Main statement: this holds for both algorithms; so unlocking scripts and remembered outputs never
matter, and where inputs are left open, neither do the inputs around the signed one.
-/

namespace UtxoSpend

namespace Transaction

variable {tx₁ tx₂ : Transaction} {i₁ i₂ : Nat} {flag : SighashFlag}

theorem forget_signedCopyInput_eq {signed : Bool} {base : SighashBase} {x y : Input}
    (hprevious : x.previous = y.previous)
    (hsequence : signed = true ∨ base = .all → x.sequence = y.sequence) (code : Script) :
    (signedCopyInput signed base code x).forget = (signedCopyInput signed base code y).forget := by
  unfold signedCopyInput Input.forget
  rw [hprevious]
  by_cases hkept : signed = true ∨ base = .all
  · rw [if_pos hkept, if_pos hkept, hsequence hkept]
  · rw [if_neg hkept, if_neg hkept]

theorem map_forget_signedCopyInputs_eq (hat : tx₁.AgreeAt i₁ tx₂ i₂)
    (hunder : tx₁.AgreeUnder flag i₁ tx₂ i₂) (hplace : flag.anyoneCanPay = false → i₁ = i₂)
    (code : Script) :
    (tx₁.signedCopyInputs i₁ flag code).map Input.forget =
      (tx₂.signedCopyInputs i₂ flag code).map Input.forget := by
  obtain ⟨x, y, hx, hy, hprevious, hsequence⟩ := hat.signed
  cases hanyone : flag.anyoneCanPay with
  | true =>
      rw [signedCopyInputs_of_open hx hanyone, signedCopyInputs_of_open hy hanyone,
        List.map_singleton, List.map_singleton,
        forget_signedCopyInput_eq hprevious (fun _ => hsequence)]
  | false =>
      obtain rfl := hplace hanyone
      have hreferences := hunder.references hanyone
      apply List.ext_getElem?
      intro j
      have hreference := congrArg (fun references => references[j]?) hreferences
      simp only [List.getElem?_map] at hreference
      rw [List.getElem?_map, List.getElem?_map, getElem?_signedCopyInputs hanyone,
        getElem?_signedCopyInputs hanyone, Option.map_map, Option.map_map]
      cases hu : tx₁.inputs[j]? with
      | none =>
          rw [hu, Option.map_none, eq_comm, Option.map_eq_none_iff] at hreference
          rw [hreference]
      | some u =>
          rw [hu, Option.map_some, eq_comm, Option.map_eq_some_iff] at hreference
          obtain ⟨v, hv, hsame⟩ := hreference
          rw [hv, Option.map_some, Option.map_some]
          refine congrArg some (forget_signedCopyInput_eq hsame.symm ?_ code)
          rintro (hsigned | hall)
          · obtain rfl := beq_iff_eq.mp hsigned
            rw [hu, Option.some.injEq] at hx
            rw [hv, Option.some.injEq] at hy
            rw [hx, hy, hsequence]
          · have hsequences :=
              congrArg (fun sequences => sequences[j]?) (hunder.sequences hanyone hall)
            simp only [List.getElem?_map, hu, hv, Option.map_some, Option.some.injEq] at hsequences
            exact hsequences

theorem signedCopyOutputs_eq (hunder : tx₁.AgreeUnder flag i₁ tx₂ i₂)
    (hplace : flag.base = .single → i₁ = i₂) :
    tx₁.signedCopyOutputs i₁ flag.base = tx₂.signedCopyOutputs i₂ flag.base := by
  cases hbase : flag.base with
  | all => exact hunder.outputs hbase
  | none => rfl
  | single =>
      rw [signedCopyOutputs, signedCopyOutputs, hunder.output hbase, hplace hbase]

theorem encode_signedCopy_eq (hat : tx₁.AgreeAt i₁ tx₂ i₂)
    (hunder : tx₁.AgreeUnder flag i₁ tx₂ i₂)
    (hplace : flag.anyoneCanPay = false ∨ flag.base = .single → i₁ = i₂) (code : Script) :
    (tx₁.signedCopy i₁ flag code).encode = (tx₂.signedCopy i₂ flag code).encode := by
  have hwritten : (tx₁.signedCopy i₁ flag code).written =
      (tx₂.signedCopy i₂ flag code).written := by
    rw [written, written, Transaction.mk.injEq]
    exact ⟨hat.version,
      map_forget_signedCopyInputs_eq hat hunder (fun hanyone => hplace (.inl hanyone)) code,
      signedCopyOutputs_eq hunder (fun hsingle => hplace (.inr hsingle)), hat.lockTime, rfl⟩
  rw [← encode_written, hwritten, encode_written]

end Transaction

namespace Sighash

variable {tx₁ tx₂ : Transaction} {i₁ i₂ : Nat} {flag : SighashFlag}

theorem Preimage.message_eq_of_agree (hfork : tx₁.chain.forkId = tx₂.chain.forkId)
    (hat : tx₁.AgreeAt i₁ tx₂ i₂) (hunder : tx₁.AgreeUnder flag i₁ tx₂ i₂) (code : Script)
    (amount : UInt64) :
    message tx₁ i₁ flag code amount = message tx₂ i₂ flag code amount := by
  obtain ⟨x, y, hx, hy, hreference, hsequence⟩ := hat.signed
  have hprevious : previousPart tx₁ flag = previousPart tx₂ flag := by
    unfold previousPart
    cases hanyone : flag.anyoneCanPay with
    | true => rfl
    | false => rw [hunder.references hanyone]
  have hsequences : sequencePart tx₁ flag = sequencePart tx₂ flag := by
    unfold sequencePart
    by_cases hsigned : (!flag.anyoneCanPay && flag.base == .all) = true
    · obtain ⟨hanyone, hall⟩ : flag.anyoneCanPay = false ∧ flag.base = .all := by
        simpa using hsigned
      rw [if_pos hsigned, if_pos hsigned, hunder.sequences hanyone hall]
    · rw [if_neg hsigned, if_neg hsigned]
  have houtputs : outputPart tx₁ i₁ flag = outputPart tx₂ i₂ flag := by
    unfold outputPart
    cases hbase : flag.base with
    | all => rw [hunder.outputs hbase]
    | none => rfl
    | single => rw [hunder.output hbase]
  rw [message_eq_encode_fields hx, message_eq_encode_fields hy, fields, fields, hat.version,
    hprevious, hsequences, hreference, hsequence, houtputs, hat.lockTime, hfork]

/-- Both transactions have the digest. That of the first algorithm also shows where the signed input
stands, unless it is alone in the copy and no output beside it is signed. -/
theorem exists_digest_of_agree (hchain : tx₁.chain.usesPreimage = tx₂.chain.usesPreimage)
    (hfork : tx₁.chain.forkId = tx₂.chain.forkId) (hat : tx₁.AgreeAt i₁ tx₂ i₂)
    (hunder : tx₁.AgreeUnder flag i₁ tx₂ i₂)
    (hplace : tx₁.chain.usesPreimage = false →
      flag.anyoneCanPay = false ∨ flag.base = .single → i₁ = i₂)
    (houtput : ¬LacksOutput tx₁ i₁ flag) (code : Script) (amount : UInt64) :
    ∃ d, digest tx₁ i₁ flag code amount = .ok d ∧ digest tx₂ i₂ flag code amount = .ok d := by
  obtain ⟨x, y, hx, hy, -, -⟩ := hat.signed
  obtain ⟨d, hd⟩ := exists_digest hx houtput code amount
  refine ⟨d, hd, ?_⟩
  rw [← hd]
  cases hpreimage : tx₁.chain.usesPreimage with
  | true =>
      rw [digest, digest, message, message, ← hchain, hpreimage, if_pos rfl, if_pos rfl,
        Preimage.message_eq_of_agree hfork hat hunder]
  | false =>
      have hindex₁ := (List.getElem?_eq_some_iff.mp hx).1
      have hindex₂ := (List.getElem?_eq_some_iff.mp hy).1
      have hlacks₁ : ¬(flag.base = .single ∧ tx₁.outputs.length ≤ i₁) :=
        fun hlacks => houtput ⟨hpreimage, hlacks⟩
      have hlacks₂ : ¬(flag.base = .single ∧ tx₂.outputs.length ≤ i₂) := by
        rintro ⟨hsingle, hge⟩
        have hnone := hunder.output hsingle
        rw [List.getElem?_eq_none hge, List.getElem?_eq_none_iff] at hnone
        exact hlacks₁ ⟨hsingle, hnone⟩
      rw [digest_eq_hash_signedCopy hpreimage hindex₁, if_neg hlacks₁,
        digest_eq_hash_signedCopy (hchain ▸ hpreimage) hindex₂, if_neg hlacks₂,
        Transaction.encode_signedCopy_eq hat hunder (hplace hpreimage)]

/-- Where inputs are left open and no single output is signed, the inputs before and after the
signed one are free. -/
theorem digest_eq_of_open (hanyone : flag.anyoneCanPay = true) (hbase : flag.base ≠ .single)
    (tx : Transaction) (signed : Input) (before after before' after' : List Input) (code : Script)
    (amount : UInt64) :
    digest { tx with inputs := before ++ signed :: after } before.length flag code amount =
      digest { tx with inputs := before' ++ signed :: after' } before'.length flag code amount := by
  have hopen : flag.anyoneCanPay ≠ false := by
    rw [hanyone]
    decide
  have hat : { tx with inputs := before ++ signed :: after }.AgreeAt before.length
      { tx with inputs := before' ++ signed :: after' } before'.length :=
    ⟨rfl, rfl, signed, signed, by simp, by simp, rfl, rfl⟩
  have hunder : { tx with inputs := before ++ signed :: after }.AgreeUnder flag before.length
      { tx with inputs := before' ++ signed :: after' } before'.length :=
    ⟨fun h => absurd h hopen, fun h => absurd h hopen, fun _ => rfl, fun h => absurd h hbase⟩
  obtain ⟨d, hleft, hright⟩ := exists_digest_of_agree (by rfl) (by rfl) hat hunder
    (fun _ hplace => absurd hplace (not_or.mpr ⟨hopen, hbase⟩)) (fun hlacks => hbase hlacks.2.1)
    code amount
  rw [hleft, hright]

/-- A digest depends on nothing that its flag leaves out. -/
theorem digest_depends_on_signed (flag : SighashFlag) (code : Script) (amount : UInt64) :
    (∀ tx₁ i₁ tx₂ i₂, tx₁.chain.usesPreimage = tx₂.chain.usesPreimage →
      tx₁.chain.forkId = tx₂.chain.forkId → tx₁.AgreeAt i₁ tx₂ i₂ →
      tx₁.AgreeUnder flag i₁ tx₂ i₂ →
      (tx₁.chain.usesPreimage = false →
        flag.anyoneCanPay = false ∨ flag.base = .single → i₁ = i₂) →
      ¬LacksOutput tx₁ i₁ flag →
      ∃ d, digest tx₁ i₁ flag code amount = .ok d ∧ digest tx₂ i₂ flag code amount = .ok d) ∧
    (∀ tx₁ tx₂ index, tx₁.bare = tx₂.bare →
      digest tx₁ index flag code amount = digest tx₂ index flag code amount) ∧
    (flag.anyoneCanPay = true → flag.base ≠ .single →
      ∀ (tx : Transaction) (signed : Input) (before after before' after' : List Input),
        digest { tx with inputs := before ++ signed :: after } before.length flag code amount =
          digest { tx with inputs := before' ++ signed :: after' } before'.length flag code
            amount) :=
  ⟨fun _ _ _ _ hchain hfork hat hunder hplace houtput =>
      exists_digest_of_agree hchain hfork hat hunder hplace houtput code amount,
    fun _ _ index hbare => digest_eq_of_bare_eq hbare index flag code amount,
    fun hanyone hbase tx signed before after before' after' =>
      digest_eq_of_open hanyone hbase tx signed before after before' after' code amount⟩

/-- The second input of `twoByTwo` alone, unsigned and with the output that it spends. -/
def oneToTwo : Transaction :=
  { twoByTwo with
    inputs := [⟨⟨.ofNat 32 0x22, 1⟩, .empty, 6, some ⟨3000, ⟨[0x51]⟩⟩⟩]
    chain := .bitcoinTestnet }

theorem digest_depends_on_signed_oneToTwo :
    twoByTwo.AgreeAt 1 oneToTwo 0 ∧ twoByTwo.AgreeUnder ⟨.all, true, none⟩ 1 oneToTwo 0 ∧
    ¬LacksOutput twoByTwo 1 ⟨.all, true, none⟩ ∧ twoByTwo.bare.bare = twoByTwo.bare ∧
    (∃ d, digest twoByTwo 1 ⟨.all, true, none⟩ ⟨[0xac]⟩ 7 = .ok d ∧
      digest oneToTwo 0 ⟨.all, true, none⟩ ⟨[0xac]⟩ 7 = .ok d) ∧
    digest twoByTwo.bare 1 ⟨.all, true, none⟩ ⟨[0xac]⟩ 7 =
      digest twoByTwo 1 ⟨.all, true, none⟩ ⟨[0xac]⟩ 7 ∧
    ∀ input, digest { twoByTwo with inputs := [] ++ input :: twoByTwo.inputs } 0
        ⟨.all, true, none⟩ ⟨[0xac]⟩ 7 =
      digest { twoByTwo with inputs := twoByTwo.inputs ++ input :: [] } 2
        ⟨.all, true, none⟩ ⟨[0xac]⟩ 7 := by
  have hat : twoByTwo.AgreeAt 1 oneToTwo 0 := ⟨rfl, rfl, _, _, rfl, rfl, rfl, rfl⟩
  have hunder : twoByTwo.AgreeUnder ⟨.all, true, none⟩ 1 oneToTwo 0 := by
    refine ⟨fun h => ?_, fun h => ?_, fun _ => rfl, fun h => ?_⟩
    all_goals cases h
  have houtput : ¬LacksOutput twoByTwo 1 ⟨.all, true, none⟩ := by
    rintro ⟨-, hsingle, -⟩
    cases hsingle
  have hbare : twoByTwo.bare.bare = twoByTwo.bare := rfl
  obtain ⟨hagree, hscripts, hinputs⟩ := digest_depends_on_signed ⟨.all, true, none⟩ ⟨[0xac]⟩ 7
  have hplace : twoByTwo.chain.usesPreimage = false →
      true = false ∨ SighashBase.all = .single → 1 = 0 := by
    rintro - (h | h)
    all_goals cases h
  exact ⟨hat, hunder, houtput, hbare,
    hagree twoByTwo 1 oneToTwo 0 rfl rfl hat hunder hplace houtput, hscripts _ _ 1 hbare,
    fun input => hinputs rfl (by decide) twoByTwo input [] _ _ []⟩

end Sighash

end UtxoSpend
