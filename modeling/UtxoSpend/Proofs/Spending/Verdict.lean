import Mathlib
import UtxoSpend.Proofs.Machine.SignedCode
import UtxoSpend.Proofs.Sighash.Digest
import UtxoSpend.Spending.Verify

/-!
# What the scripts of an input decide

A check without a digest counts as a refusal while the scripts run, and is remembered until they
have ended.  Main statement: the answer is the error of such a check, wherever in the run it was
made and however the run ended; without one it is the outcome of the scripts, where three kinds of
failures are errors and all others refusals.
-/

namespace UtxoSpend

namespace FailureCode

def structural : List FailureCode := [malformedPush, scriptTooBig, elementTooBig]

theorem isStructural_eq_true_iff {code : FailureCode} :
    code.isStructural = true ↔ code ∈ structural := by
  cases code <;> simp [isStructural, structural]

end FailureCode

/-! ## The transaction as scripts see it -/

namespace Transaction

theorem checkedDigest_bare (tx : Transaction) (amount : UInt64) :
    tx.bare.checkedDigest amount = tx.checkedDigest amount := by
  funext check
  unfold checkedDigest
  simp only [Sighash.digest_bare]
  rfl

theorem context_bare (tx : Transaction) (amount : UInt64) :
    tx.bare.context amount = tx.context amount := by
  have hsequence : (tx.bare.context amount).sequenceOf = (tx.context amount).sequenceOf := by
    funext index
    have hget : tx.bare.inputs[index]? = tx.inputs[index]?.map Input.bare := List.getElem?_map
    simp only [context, hget]
    cases tx.inputs[index]? <;> rfl
  have hverdict : (tx.bare.context amount).verdict = (tx.context amount).verdict := by
    funext _ check
    simp only [context, verdict, checkedDigest_bare]
  rw [context, context, TxContext.mk.injEq]
  exact ⟨rfl, rfl, hsequence, hverdict⟩

theorem satisfies_bare (tx : Transaction) (index : Nat) (unlocking : Script) (spent : Output) :
    tx.bare.satisfies index unlocking spent = tx.satisfies index unlocking spent := by
  have henv : tx.bare.env index spent.amount = tx.env index spent.amount := by
    rw [env, env, context_bare]
    rfl
  have herror : tx.bare.checkError? spent.amount = tx.checkError? spent.amount := by
    funext check
    rw [checkError?, checkError?, checkedDigest_bare]
  rw [satisfies, satisfies, judge, judge, henv, herror]

/-- Scripts see nothing of the transaction that signatures do not see. -/
theorem satisfies_eq_of_bare_eq {a b : Transaction} (h : a.bare = b.bare) (index : Nat)
    (unlocking : Script) (spent : Output) :
    a.satisfies index unlocking spent = b.satisfies index unlocking spent := by
  rw [← satisfies_bare a, ← satisfies_bare b, h]

/-! ## Checks without a digest -/

variable {tx : Transaction} {index : Nat} {input : Input} {amount : UInt64}

/-- Some signature that was checked asks for the output at the place of the input, and there is
none. -/
def AsksForMissing (tx : Transaction) (index : Nat) (checks : List SignatureCheck) : Prop :=
  ∃ check ∈ checks, ∃ flag, SighashFlag.ofByte check.hashType tx.chain.forkId = .ok flag ∧
    Sighash.LacksOutput tx index flag

theorem checkError?_eq_some_iff {check : SignatureCheck} {e : TransactionError}
    (hinput : tx.inputs[check.inputIndex]? = some input) :
    tx.checkError? amount check = some e ↔
      (∃ flag, SighashFlag.ofByte check.hashType tx.chain.forkId = .ok flag ∧
        Sighash.LacksOutput tx check.inputIndex flag) ∧
      e = .singleWithoutOutput check.inputIndex tx.outputs.length := by
  unfold checkError? checkedDigest
  cases hflag : SighashFlag.ofByte check.hashType tx.chain.forkId with
  | error cause => simp
  | ok flag =>
      by_cases hlacks : Sighash.LacksOutput tx check.inputIndex flag
      · simp [Sighash.digest_of_lacksOutput hinput hlacks, hlacks, eq_comm]
      · obtain ⟨d, hd⟩ := Sighash.exists_digest hinput hlacks check.code amount
        simp [hd, hlacks]

theorem findSome?_checkError?_eq_some_iff {checks : List SignatureCheck} {e : TransactionError}
    (hinput : tx.inputs[index]? = some input)
    (hindex : ∀ check ∈ checks, check.inputIndex = index) :
    checks.findSome? (tx.checkError? amount) = some e ↔
      tx.AsksForMissing index checks ∧ e = .singleWithoutOutput index tx.outputs.length := by
  have hcheck : ∀ check ∈ checks, ∀ e, tx.checkError? amount check = some e ↔
      (∃ flag, SighashFlag.ofByte check.hashType tx.chain.forkId = .ok flag ∧
        Sighash.LacksOutput tx index flag) ∧
      e = .singleWithoutOutput index tx.outputs.length := by
    intro check hmem e
    have hplace := hindex check hmem
    rw [checkError?_eq_some_iff (hplace.symm ▸ hinput), hplace]
  constructor
  · intro h
    obtain ⟨check, hmem, herror⟩ := List.exists_of_findSome?_eq_some h
    obtain ⟨hflag, rfl⟩ := (hcheck check hmem e).mp herror
    exact ⟨⟨check, hmem, hflag⟩, rfl⟩
  · rintro ⟨⟨check, hmem, hflag⟩, rfl⟩
    have herror := (hcheck check hmem _).mpr ⟨hflag, rfl⟩
    cases hfirst : checks.findSome? (tx.checkError? amount) with
    | none =>
        rw [List.findSome?_eq_none_iff.mp hfirst check hmem] at herror
        cases herror
    | some first =>
        obtain ⟨other, hother, hfound⟩ := List.exists_of_findSome?_eq_some hfirst
        rw [((hcheck other hother first).mp hfound).2]

/-! ## The answer -/

structure AnsweredBy (tx : Transaction) (index : Nat) (o : Outcome)
    (answer : Except TransactionError Bool) : Prop where
  lacksOutput : (∃ i n, answer = .error (.singleWithoutOutput i n)) ↔
    tx.AsksForMissing index o.checks
  valid : ¬tx.AsksForMissing index o.checks → (answer = .ok true ↔ o.result = .ok ())
  defective : ¬tx.AsksForMissing index o.checks → ∀ defect,
    answer = .error (.invalidScript defect) ↔ ∃ failure, defect = .failed failure ∧
      o.result = .error failure ∧ failure.code ∈ FailureCode.structural
  refused : ¬tx.AsksForMissing index o.checks → (answer = .ok false ↔
    ∃ failure, o.result = .error failure ∧ failure.code ∉ FailureCode.structural)
  errors : ∀ e, answer = .error e →
    e = .singleWithoutOutput index tx.outputs.length ∨ ∃ defect, e = .invalidScript defect

theorem judge_answeredBy {o : Outcome} (hinput : tx.inputs[index]? = some input)
    (hindex : ∀ check ∈ o.checks, check.inputIndex = index) :
    tx.AnsweredBy index o (tx.judge amount o) := by
  by_cases hasks : tx.AsksForMissing index o.checks
  · have hjudge : tx.judge amount o = .error (.singleWithoutOutput index tx.outputs.length) := by
      rw [judge, (findSome?_checkError?_eq_some_iff hinput hindex).mpr ⟨hasks, rfl⟩]
    rw [hjudge]
    exact ⟨by simp [hasks], absurd hasks, absurd hasks, absurd hasks, by simp⟩
  · have hnone : o.checks.findSome? (tx.checkError? amount) = none := by
      rw [Option.eq_none_iff_forall_ne_some]
      intro e he
      exact hasks ((findSome?_checkError?_eq_some_iff hinput hindex).mp he).1
    cases hresult : o.result with
    | ok u =>
        have hjudge : tx.judge amount o = .ok true := by simp only [judge, hnone, hresult]
        rw [hjudge]
        constructor <;> simp [hasks, hresult]
    | error failure =>
        by_cases hstructural : failure.code.isStructural = true
        · have hjudge : tx.judge amount o = .error (.invalidScript (.failed failure)) := by
            simp only [judge, hnone, hresult, hstructural, if_true]
          have hmem := FailureCode.isStructural_eq_true_iff.mp hstructural
          rw [hjudge]
          constructor <;> simp [hasks, hresult, hmem, eq_comm]
        · have hjudge : tx.judge amount o = .ok false := by
            simp only [judge, hnone, hresult, hstructural, Bool.false_eq_true, if_false]
          have hmem := mt FailureCode.isStructural_eq_true_iff.mpr hstructural
          rw [hjudge]
          constructor <;> simp [hasks, hresult, hmem]

theorem satisfies_answeredBy (hinput : tx.inputs[index]? = some input) (unlocking : Script)
    (spent : Output) :
    tx.AnsweredBy index (evaluate (tx.env index spent.amount) unlocking spent.lockingScript)
      (tx.satisfies index unlocking spent) := by
  refine judge_answeredBy hinput fun check hmem => ?_
  obtain ⟨past, m, -, hasked⟩ := Machine.evaluate_asked hmem
  exact hasked.inputIndex

end Transaction

/-- A good spend ran to its end and left one item, a true one, where the stack must be clean. -/
theorem Machine.clean_of_result_eq_ok {env : Env} (hclean : env.has .cleanStack = true)
    {unlocking locking : Script} (h : (evaluate env unlocking locking).result = .ok ()) :
    ∃ m m' item, start env unlocking locking = .ok m ∧ run env m = .ok true m' ∧
      m'.state.data = [item] ∧ Truth.holds item = true := by
  cases hstart : start env unlocking locking with
  | error e =>
      rw [evaluate_of_start_error hstart] at h
      cases h
  | ok m =>
      rw [evaluate_eq_conclude hstart] at h
      cases hrun : run env m with
      | error e m' =>
          rw [hrun] at h
          cases h
      | ok done m' =>
          rw [hrun] at h
          cases done with
          | false => cases h
          | true =>
              have hresult : checkResult env true m'.state.data = .ok () := h
              cases hdata : m'.state.data with
              | nil =>
                  rw [hdata] at hresult
                  cases hresult
              | cons item below =>
                  rw [hdata, checkResult_clean_eq_ok_iff hclean] at hresult
                  obtain ⟨rfl, htrue⟩ := hresult
                  exact ⟨m, m', item, rfl, hrun, hdata, htrue⟩

end UtxoSpend
