import Mathlib
import UtxoSpend.Proofs.Machine.PayToKeyHash
import UtxoSpend.Proofs.Spending.Resolve
import UtxoSpend.Proofs.Spending.Verdict

/-!
# What verification answers

Verifying an input remembers what it has found, and changes nothing else.  What it answers is a
function of the transaction and the resolver alone, so each input can be judged on the transaction
as it was.  Main statement: every answer has one cause and every error one condition, and the answer
for the transaction is the first answer for an input that is not positive.
-/

namespace UtxoSpend

open Effect

/-! ## What a resolver makes known -/

def Input.resolved (resolver : Resolver) (input : Input) : Input :=
  { input with spent := (input.spends resolver).toOption }

theorem Input.spends_eq_error_iff {resolver : Resolver} {input : Input} {cause : TransactionError} :
    input.spends resolver = .error cause ↔
      input.spent = none ∧ resolver input.previous = .error cause := by
  unfold spends
  cases input.spent <;> simp

theorem Input.spends_resolved (resolver : Resolver) (input : Input) :
    (input.resolved resolver).spends resolver = input.spends resolver := by
  cases h : input.spends resolver with
  | ok output => rw [spends, resolved, h, Except.toOption]
  | error cause =>
      obtain ⟨hspent, hresolver⟩ := spends_eq_error_iff.mp h
      rw [spends_eq_error_iff]
      refine ⟨?_, hresolver⟩
      rw [resolved, h, Except.toOption]

namespace Transaction

def resolved (resolver : Resolver) (tx : Transaction) : Transaction :=
  { tx with inputs := tx.inputs.map (Input.resolved resolver) }

theorem bare_resolved (resolver : Resolver) (tx : Transaction) :
    (tx.resolved resolver).bare = tx.bare := by
  simp only [bare, resolved, List.map_map]
  rfl

def answerAt (resolver : Resolver) (tx : Transaction) (index : Nat) :
    Except TransactionError Bool :=
  match tx.inputs[index]? with
  | none => .error (.noInput index tx.inputs.length)
  | some input =>
    if input.previous.isCoinbase then .ok true
    else
      match input.spends resolver with
      | .error cause => .error (Spending.missing input.previous cause)
      | .ok spent => tx.satisfies index input.unlockingScript spent

variable {resolver : Resolver} {tx : Transaction} {index : Nat} {input : Input}

theorem answerAt_of_none (hinput : tx.inputs[index]? = none) :
    tx.answerAt resolver index = .error (.noInput index tx.inputs.length) := by
  simp only [answerAt, hinput]

theorem answerAt_of_coinbase (hinput : tx.inputs[index]? = some input)
    (hcoinbase : input.previous.isCoinbase = true) : tx.answerAt resolver index = .ok true := by
  simp only [answerAt, hinput, hcoinbase, if_true]

theorem answerAt_of_missing (hinput : tx.inputs[index]? = some input)
    (hcoinbase : input.previous.isCoinbase = false) {cause : TransactionError}
    (hspends : input.spends resolver = .error cause) :
    tx.answerAt resolver index = .error (Spending.missing input.previous cause) := by
  simp only [answerAt, hinput, hcoinbase, hspends, Bool.false_eq_true, if_false]

theorem answerAt_of_found (hinput : tx.inputs[index]? = some input)
    (hcoinbase : input.previous.isCoinbase = false) {spent : Output}
    (hspends : input.spends resolver = .ok spent) :
    tx.answerAt resolver index = tx.satisfies index input.unlockingScript spent := by
  simp only [answerAt, hinput, hcoinbase, hspends, Bool.false_eq_true, if_false]

theorem answerAt_resolved (resolver : Resolver) (tx : Transaction) :
    (tx.resolved resolver).answerAt resolver = tx.answerAt resolver := by
  funext index
  have hget : (tx.resolved resolver).inputs[index]? =
      tx.inputs[index]?.map (Input.resolved resolver) := List.getElem?_map
  have hlength : (tx.resolved resolver).inputs.length = tx.inputs.length := List.length_map _
  unfold answerAt
  rw [hget, hlength]
  cases tx.inputs[index]? with
  | none => rfl
  | some input =>
      simp only [Option.map_some, Input.spends_resolved,
        satisfies_eq_of_bare_eq (bare_resolved resolver tx)]
      rfl

theorem answerAt_eq_of_resolved_eq {resolver : Resolver} {a b : Transaction}
    (h : a.resolved resolver = b.resolved resolver) :
    a.answerAt resolver = b.answerAt resolver := by
  rw [← answerAt_resolved resolver a, ← answerAt_resolved resolver b, h]

end Transaction

namespace Spending

variable {resolver : Resolver} {index : Nat} {s : Spending} {input : Input}

/-- As far as the resolver makes known, the transaction is the same. -/
def Known (resolver : Resolver) (s t : Spending) : Prop :=
  t.transaction.resolved resolver = s.transaction.resolved resolver

theorem Known.refl (s : Spending) : Known resolver s s := rfl

theorem Known.trans {s t u : Spending} (h : Known resolver s t) (h' : Known resolver t u) :
    Known resolver s u := Eq.trans h' h

theorem inputAt_of_none (hinput : s.transaction.inputs[index]? = none) :
    inputAt index s = .error (.noInput index s.transaction.inputs.length) s := by
  rw [inputAt, hinput]

theorem inputAt_known (index : Nat) : Preserves (Known resolver) (inputAt index) := by
  intro s
  unfold inputAt
  cases s.transaction.inputs[index]? <;> rfl

theorem resolve_known (resolver : Resolver) (index : Nat) :
    Preserves (Known resolver) (resolve resolver index) := by
  intro s
  cases hinput : s.transaction.inputs[index]? with
  | none =>
      rw [resolve, bind_of_error (inputAt_of_none hinput)]
      rfl
  | some input =>
      cases hspent : input.spent with
      | some output =>
          rw [resolve_of_remembered hinput hspent]
          rfl
      | none =>
          cases hresolver : resolver input.previous with
          | error cause =>
              rw [resolve_of_missing hinput hspent hresolver]
              rfl
          | ok output =>
              have hview : ∀ i, s.transaction.inputs[index]? = some i →
                  (i.remember output).resolved resolver = i.resolved resolver := by
                intro i hi
                obtain rfl := Option.some.inj (hinput.symm.trans hi)
                simp only [Input.remember, Input.resolved, Input.spends, hspent, hresolver]
                rfl
              have hinputs := Transaction.map_inputs_updateInput hview
              rw [resolve_of_found hinput hspent hresolver]
              change Transaction.resolved _ (s.transaction.updateInput index _) = _
              rw [Transaction.resolved, Transaction.resolved, hinputs]
              rfl

theorem verifyInput_known (resolver : Resolver) (index : Nat) :
    Preserves (Known resolver) (verifyInput resolver index) := by
  refine Preserves.bind Known.trans (inputAt_known index) fun input => ?_
  refine Preserves.ite (Preserves.pure Known.refl true) ?_
  refine Preserves.bind Known.trans (resolve_known resolver index) fun spent => fun s => ?_
  rw [get_bind_run]
  cases s.transaction.satisfies index input.unlockingScript spent <;> rfl

/-! ## The answers -/

theorem verifyInput_of_coinbase (hinput : s.transaction.inputs[index]? = some input)
    (hcoinbase : input.previous.isCoinbase = true) :
    verifyInput resolver index s = .ok true s := by
  rw [verifyInput, bind_of_ok (inputAt_run hinput), if_pos hcoinbase]
  rfl

theorem answer_verifyInput (resolver : Resolver) (index : Nat) (s : Spending) :
    answer (verifyInput resolver index s) = s.transaction.answerAt resolver index := by
  cases hinput : s.transaction.inputs[index]? with
  | none =>
      rw [Transaction.answerAt_of_none hinput, verifyInput, bind_of_error (inputAt_of_none hinput)]
      rfl
  | some input =>
      cases hcoinbase : input.previous.isCoinbase with
      | true =>
          rw [Transaction.answerAt_of_coinbase hinput hcoinbase,
            verifyInput_of_coinbase hinput hcoinbase]
          rfl
      | false =>
          rw [verifyInput, bind_of_ok (inputAt_run hinput), hcoinbase, if_neg (by decide)]
          cases hspends : input.spends resolver with
          | error cause =>
              obtain ⟨hspent, hresolver⟩ := Input.spends_eq_error_iff.mp hspends
              rw [Transaction.answerAt_of_missing hinput hcoinbase hspends,
                bind_of_error (resolve_of_missing hinput hspent hresolver)]
              rfl
          | ok spent =>
              obtain ⟨t, hresolve, hforget, -⟩ := resolve_spec hinput hspends
              have hbare := Transaction.bare_eq_of_forget_eq hforget
              rw [Transaction.answerAt_of_found hinput hcoinbase hspends, bind_of_ok hresolve,
                get_bind_run, Transaction.satisfies_eq_of_bare_eq hbare]
              cases s.transaction.satisfies index input.unlockingScript spent <;> rfl

def firstRefusal (answers : List (Except TransactionError Bool)) : Except TransactionError Bool :=
  (answers.find? fun answer => decide (answer ≠ .ok true)).getD (.ok true)

/-- Each input is judged as if it were the first. -/
theorem answer_verifyFrom (resolver : Resolver) (index count : Nat) (s : Spending) :
    answer (verifyFrom resolver index count s) =
      firstRefusal ((List.range' index count).map (s.transaction.answerAt resolver)) := by
  induction count generalizing index s with
  | zero => rfl
  | succ count ih =>
      have hanswer := answer_verifyInput resolver index s
      rw [List.range'_succ, List.map_cons, ← hanswer, verifyFrom]
      cases hrun : verifyInput resolver index s with
      | error e t =>
          rw [bind_of_error hrun]
          rfl
      | ok valid t =>
          rw [bind_of_ok hrun]
          cases valid with
          | false => rfl
          | true =>
              have hsame := Transaction.answerAt_eq_of_resolved_eq
                ((verifyInput_known resolver index).of_ok hrun)
              rw [if_pos rfl, ih, hsame]
              rfl

/-! ## What an answer tells -/

structure Classified (resolver : Resolver) (s : Spending) (index : Nat) : Prop where
  noInput : (∃ i n, answer (verifyInput resolver index s) = .error (.noInput i n)) ↔
    s.transaction.inputs.length ≤ index
  coinbase : ∀ input, s.transaction.inputs[index]? = some input →
    input.previous.isCoinbase = true → verifyInput resolver index s = .ok true s
  missing : ∀ input, s.transaction.inputs[index]? = some input →
    input.previous.isCoinbase = false →
    ((∃ e, answer (verifyInput resolver index s) = .error e ∧ e.isMissingOutput = true) ↔
      input.spent = none ∧ ∃ cause, resolver input.previous = .error cause)
  found : ∀ input, s.transaction.inputs[index]? = some input →
    input.previous.isCoinbase = false → ∀ spent, input.spends resolver = .ok spent →
    s.transaction.AnsweredBy index
      (evaluate (s.transaction.env index spent.amount) input.unlockingScript spent.lockingScript)
      (answer (verifyInput resolver index s))
  errors : ∀ e, answer (verifyInput resolver index s) = .error e →
    (∃ i n, e = .noInput i n) ∨ e.isMissingOutput = true ∨
    (∃ i n, e = .singleWithoutOutput i n) ∨ ∃ defect, e = .invalidScript defect
  clean : ∀ input, s.transaction.inputs[index]? = some input →
    input.previous.isCoinbase = false → answer (verifyInput resolver index s) = .ok true →
    ∃ spent m m' item, input.spends resolver = .ok spent ∧
      Machine.start (s.transaction.env index spent.amount) input.unlockingScript
        spent.lockingScript = .ok m ∧
      Machine.run (s.transaction.env index spent.amount) m = .ok true m' ∧
      m'.state.data = [item] ∧ Truth.holds item = true

theorem classified_of_none (hinput : s.transaction.inputs[index]? = none) :
    Classified resolver s index := by
  have hanswer := answer_verifyInput resolver index s
  rw [Transaction.answerAt_of_none hinput] at hanswer
  have hge := List.getElem?_eq_none_iff.mp hinput
  constructor
  case noInput => simp [hanswer, hge]
  case coinbase => simp [hinput]
  case missing => simp [hinput]
  case found => simp [hinput]
  case errors => simp [hanswer]
  case clean => simp [hinput]

theorem classified_of_coinbase (hinput : s.transaction.inputs[index]? = some input)
    (hcoinbase : input.previous.isCoinbase = true) : Classified resolver s index := by
  have hanswer := answer_verifyInput resolver index s
  rw [Transaction.answerAt_of_coinbase hinput hcoinbase] at hanswer
  have hlt : index < s.transaction.inputs.length := (List.getElem?_eq_some_iff.mp hinput).1
  constructor
  case noInput => simp [hanswer, Nat.not_le_of_lt hlt]
  case coinbase => exact fun _ _ _ => verifyInput_of_coinbase hinput hcoinbase
  case missing => simp [hinput, hcoinbase]
  case found => simp [hinput, hcoinbase]
  case errors => simp [hanswer]
  case clean => simp [hinput, hcoinbase]

theorem isMissingOutput_missing (point : OutPoint) (cause : TransactionError) :
    (missing point cause).isMissingOutput = true := by
  unfold missing
  split_ifs with h
  · exact h
  · rfl

theorem classified_of_missing (hinput : s.transaction.inputs[index]? = some input)
    (hcoinbase : input.previous.isCoinbase = false) {cause : TransactionError}
    (hspends : input.spends resolver = .error cause) : Classified resolver s index := by
  have hanswer := answer_verifyInput resolver index s
  rw [Transaction.answerAt_of_missing hinput hcoinbase hspends] at hanswer
  have hlt : index < s.transaction.inputs.length := (List.getElem?_eq_some_iff.mp hinput).1
  have hmissing := isMissingOutput_missing input.previous cause
  have hne : ∀ i n, missing input.previous cause ≠ .noInput i n := by
    intro i n h
    rw [h] at hmissing
    cases hmissing
  constructor
  case noInput => simp [hanswer, Nat.not_le_of_lt hlt, hne]
  case coinbase => simp [hinput, hcoinbase]
  case missing => simp [hanswer, hinput, hmissing, Input.spends_eq_error_iff.mp hspends]
  case found => simp [hinput, hspends]
  case errors => simp [hanswer, hmissing]
  case clean => simp [hanswer]

theorem classified_of_found (hinput : s.transaction.inputs[index]? = some input)
    (hcoinbase : input.previous.isCoinbase = false) {spent : Output}
    (hspends : input.spends resolver = .ok spent) : Classified resolver s index := by
  have hanswer := answer_verifyInput resolver index s
  rw [Transaction.answerAt_of_found hinput hcoinbase hspends] at hanswer
  have hanswered := Transaction.satisfies_answeredBy hinput input.unlockingScript spent
  rw [← hanswer] at hanswered
  have hlt : index < s.transaction.inputs.length := (List.getElem?_eq_some_iff.mp hinput).1
  constructor
  case noInput =>
    refine iff_of_false ?_ (Nat.not_le_of_lt hlt)
    rintro ⟨i, n, h⟩
    rcases hanswered.errors _ h with h | ⟨defect, h⟩ <;> cases h
  case coinbase => simp [hinput, hcoinbase]
  case missing =>
    intro x hx _
    obtain rfl := Option.some.inj (hinput.symm.trans hx)
    constructor
    · rintro ⟨e, he, hmissing⟩
      rcases hanswered.errors e he with rfl | ⟨defect, rfl⟩ <;> cases hmissing
    · rintro ⟨hspent, cause, hresolver⟩
      rw [Input.spends_eq_error_iff.mpr ⟨hspent, hresolver⟩] at hspends
      cases hspends
  case found =>
    intro x hx _ y hy
    obtain rfl := Option.some.inj (hinput.symm.trans hx)
    obtain rfl := Except.ok.inj (hspends.symm.trans hy)
    exact hanswered
  case errors =>
    intro e he
    rcases hanswered.errors e he with rfl | hdefect
    · exact .inr (.inr (.inl ⟨_, _, rfl⟩))
    · exact .inr (.inr (.inr hdefect))
  case clean =>
    intro x hx _ hvalid
    obtain rfl := Option.some.inj (hinput.symm.trans hx)
    have hasks := mt hanswered.lacksOutput.mpr (by simp [hvalid])
    obtain ⟨m, m', item, hrest⟩ := Machine.clean_of_result_eq_ok
      (s.transaction.chain.has_cleanStack (s.transaction.context spent.amount) index)
      ((hanswered.valid hasks).mp hvalid)
    exact ⟨spent, m, m', item, hspends, hrest⟩

theorem classified (resolver : Resolver) (s : Spending) (index : Nat) :
    Classified resolver s index := by
  cases hinput : s.transaction.inputs[index]? with
  | none => exact classified_of_none hinput
  | some input =>
      cases hcoinbase : input.previous.isCoinbase with
      | true => exact classified_of_coinbase hinput hcoinbase
      | false =>
          cases hspends : input.spends resolver with
          | error cause => exact classified_of_missing hinput hcoinbase hspends
          | ok spent => exact classified_of_found hinput hcoinbase hspends

/-- Every answer for an input is classified, and the answer for the transaction is the first of them
in the order of the inputs that is not positive, each on the transaction as it was. -/
theorem verify_classified (resolver : Resolver) (s : Spending) :
    (∀ index, Classified resolver s index) ∧
    answer (verify resolver s) = firstRefusal
      ((List.range s.transaction.inputs.length).map fun index =>
        answer (verifyInput resolver index s)) := by
  refine ⟨classified resolver s, ?_⟩
  rw [verify, get_bind_run, answer_verifyFrom, ← List.range_eq_range']
  simp only [answer_verifyInput]

/-- Two inputs and one output: the second input has a signature that signs the output beside it, and
spends what is locked to the failure of a signature check. -/
def loneOutput : Transaction where
  version := 1
  inputs := [⟨⟨.ofNat 32 0x11, 0⟩, .empty, 0, some ⟨6, ⟨[0x51]⟩⟩⟩,
    ⟨⟨.ofNat 32 0x22, 0⟩, ⟨[0x01, 0x03]⟩, 0, none⟩]
  outputs := [⟨1000, ⟨[0x51]⟩⟩]
  lockTime := 0
  chain := .bitcoin

def lockedToFailure : Output := ⟨7, ⟨[0x01, 0x02, 0xac, 0x91]⟩⟩

/-- The scripts of the second input succeed, and still the answer is an error. -/
theorem verify_classified_loneOutput :
    (evaluate (loneOutput.env 1 7) ⟨[0x01, 0x03]⟩ lockedToFailure.lockingScript).result = .ok () ∧
    (∃ i n, answer (verifyInput (fun _ => .ok lockedToFailure) 1 (start loneOutput)) =
      .error (.singleWithoutOutput i n)) ∧
    answer (verify (fun _ => .ok lockedToFailure) (start loneOutput)) =
      firstRefusal [.ok true, .error (.singleWithoutOutput 1 1)] := by
  have hresult : (evaluate (loneOutput.env 1 7) ⟨[0x01, 0x03]⟩
      lockedToFailure.lockingScript).result = .ok () := by decide +kernel
  have hchecks : (evaluate (loneOutput.env 1 7) ⟨[0x01, 0x03]⟩
      lockedToFailure.lockingScript).checks =
        [⟨[0x03], [0x02], ⟨[0x01, 0x02, 0xac, 0x91]⟩, 1, 0x03⟩] := by decide +kernel
  have hasks : loneOutput.AsksForMissing 1 (evaluate (loneOutput.env 1 7) ⟨[0x01, 0x03]⟩
      lockedToFailure.lockingScript).checks := by
    rw [hchecks]
    exact ⟨_, List.mem_singleton_self _, ⟨.single, false, none⟩, rfl, rfl, rfl, by decide⟩
  obtain ⟨hinputs, hverify⟩ :=
    verify_classified (fun _ => .ok lockedToFailure) (start loneOutput)
  have hanswers : (List.range loneOutput.inputs.length).map (fun index =>
      answer (verifyInput (fun _ => .ok lockedToFailure) index (start loneOutput))) =
        [.ok true, .error (.singleWithoutOutput 1 1)] := by decide +kernel
  exact ⟨hresult, ((hinputs 1).found _ rfl (by decide) lockedToFailure rfl).lacksOutput.mpr hasks,
    hanswers ▸ hverify⟩

end Spending

end UtxoSpend
