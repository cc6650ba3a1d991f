import Mathlib
import UtxoSpend.Proofs.Sighash.ForkId
import UtxoSpend.Proofs.Spending.IndependentSigning

/-!
# What a transaction answers, and in which order it is asked

Verification, digests and amounts look up what the inputs spend and remember it, so each of them
changes the transaction that the next one is asked of.  Main statement: as long as what is
remembered is what the resolver says, all answers depend on the bytes of the transaction and its
chain alone, and asking in any order gives the answers of a fresh copy.
-/

namespace UtxoSpend

open Effect

namespace Transaction

variable {resolver : Resolver} {tx : Transaction}

/-! ## Answers as functions of the transaction -/

def spentAt (resolver : Resolver) (tx : Transaction) (index : Nat) :
    Except TransactionError Output :=
  match tx.inputs[index]? with
  | none => .error (.noInput index tx.inputs.length)
  | some input =>
    match input.spends resolver with
    | .error cause => .error (Spending.missing input.previous cause)
    | .ok spent => .ok spent

def totalSpent (resolver : Resolver) (tx : Transaction) : Except TransactionError UInt64 := do
  let outputs ← (List.range' 0 tx.inputs.length).mapM (tx.spentAt resolver)
  Spending.totalOf .inputs (outputs.map Output.amount)

def surplus (resolver : Resolver) (tx : Transaction) : Except TransactionError Int := do
  let spent ← tx.totalSpent resolver
  let created ← Spending.totalOf .outputs (tx.outputs.map Output.amount)
  let difference : Int := spent.toNat - created.toNat
  if Int64.minValue.toInt ≤ difference ∧ difference ≤ Int64.maxValue.toInt then
    return difference
  else
    throw (.amount (.fee difference))

theorem getElem?_resolved (resolver : Resolver) (tx : Transaction) (index : Nat) :
    (tx.resolved resolver).inputs[index]? = tx.inputs[index]?.map (Input.resolved resolver) :=
  List.getElem?_map

theorem length_inputs_resolved (resolver : Resolver) (tx : Transaction) :
    (tx.resolved resolver).inputs.length = tx.inputs.length := List.length_map _

theorem spentAt_resolved (resolver : Resolver) (tx : Transaction) :
    (tx.resolved resolver).spentAt resolver = tx.spentAt resolver := by
  funext index
  unfold spentAt
  rw [getElem?_resolved, length_inputs_resolved]
  cases tx.inputs[index]? with
  | none => rfl
  | some input =>
      simp only [Option.map_some, Input.spends_resolved]
      rfl

theorem digestAt_resolved (resolver : Resolver) (tx : Transaction) (index : Nat)
    (flag : SighashFlag) :
    (tx.resolved resolver).digestAt resolver index flag = tx.digestAt resolver index flag := by
  unfold digestAt
  rw [getElem?_resolved, length_inputs_resolved]
  cases tx.inputs[index]? with
  | none => rfl
  | some input =>
      simp only [Option.map_some, Input.spends_resolved,
        Sighash.digest_eq_of_bare_eq (bare_resolved resolver tx)]
      rfl

theorem totalSpent_resolved (resolver : Resolver) (tx : Transaction) :
    (tx.resolved resolver).totalSpent resolver = tx.totalSpent resolver := by
  rw [totalSpent, totalSpent, spentAt_resolved, length_inputs_resolved]

theorem surplus_resolved (resolver : Resolver) (tx : Transaction) :
    (tx.resolved resolver).surplus resolver = tx.surplus resolver := by
  rw [surplus, surplus, totalSpent_resolved]
  rfl

/-! ## What agrees with the resolver -/

/-- What the inputs remember is what the resolver says. -/
def Agrees (resolver : Resolver) (tx : Transaction) : Prop :=
  ∀ input ∈ tx.inputs, ∀ output, input.spent = some output → resolver input.previous = .ok output

theorem resolved_forget (h : tx.Agrees resolver) :
    tx.forget.resolved resolver = tx.resolved resolver := by
  have hinputs : (tx.inputs.map Input.forget).map (Input.resolved resolver) =
      tx.inputs.map (Input.resolved resolver) := by
    rw [List.map_map]
    refine List.map_congr_left fun input hinput => ?_
    cases hspent : input.spent with
    | none => simp [Input.resolved, Input.spends, Input.forget, hspent]
    | some output =>
        simp [Input.resolved, Input.spends, Input.forget, hspent, h input hinput output hspent]
  rw [resolved, resolved, forget, hinputs]

/-- The bytes and the chain tell all but what is remembered. -/
theorem onChain_written (tx : Transaction) : tx.written.onChain tx.chain = tx.forget := rfl

end Transaction

namespace Spending

variable {resolver : Resolver} {s t : Spending}

/-! ## Looking up what is spent -/

theorem answer_resolve (resolver : Resolver) (index : Nat) (s : Spending) :
    answer (resolve resolver index s) = s.transaction.spentAt resolver index := by
  cases hinput : s.transaction.inputs[index]? with
  | none =>
      rw [Transaction.spentAt, hinput, resolve, bind_of_error (inputAt_of_none hinput)]
      rfl
  | some input =>
      rw [Transaction.spentAt, hinput]
      cases hspends : input.spends resolver with
      | error cause =>
          obtain ⟨hspent, hresolver⟩ := Input.spends_eq_error_iff.mp hspends
          rw [resolve_of_missing hinput hspent hresolver]
          simp only [hspends]
          rfl
      | ok output =>
          obtain ⟨t, hresolve, -, -⟩ := resolve_spec hinput hspends
          rw [hresolve]
          simp only [hspends]
          rfl

theorem resolveFrom_known (resolver : Resolver) (index count : Nat) :
    Preserves (Known resolver) (resolveFrom resolver index count) := by
  induction count generalizing index with
  | zero => exact .pure Known.refl []
  | succ count ih =>
      refine (resolve_known resolver index).bind Known.trans fun output => ?_
      exact (ih (index + 1)).bind Known.trans fun outputs => .pure Known.refl _

theorem answer_resolveFrom (resolver : Resolver) (index count : Nat) (s : Spending) :
    answer (resolveFrom resolver index count s) =
      (List.range' index count).mapM (s.transaction.spentAt resolver) := by
  induction count generalizing index s with
  | zero => rfl
  | succ count ih =>
      have hanswer := answer_resolve resolver index s
      rw [List.range'_succ, List.mapM_cons, ← hanswer, resolveFrom]
      cases hrun : resolve resolver index s with
      | error e t =>
          rw [bind_of_error hrun]
          rfl
      | ok output t =>
          have hknown : Known resolver s t := (resolve_known resolver index).of_ok hrun
          have hsame : t.transaction.spentAt resolver = s.transaction.spentAt resolver := by
            rw [← Transaction.spentAt_resolved resolver t.transaction, hknown,
              Transaction.spentAt_resolved]
          have hrest := ih (index + 1) t
          rw [hsame] at hrest
          rw [bind_of_ok hrun]
          change _ = (Except.ok output >>= _)
          rw [← hrest]
          cases hmore : resolveFrom resolver (index + 1) count t with
          | error e u =>
              rw [bind_of_error hmore]
              rfl
          | ok outputs u =>
              rw [bind_of_ok hmore]
              rfl

theorem answer_totalInput (resolver : Resolver) (s : Spending) :
    answer (totalInput resolver s) = s.transaction.totalSpent resolver := by
  have hanswer := answer_resolveFrom resolver 0 s.transaction.inputs.length s
  rw [Transaction.totalSpent, ← hanswer, totalInput, get_bind_run]
  cases hrun : resolveFrom resolver 0 s.transaction.inputs.length s with
  | error e t =>
      rw [bind_of_error hrun]
      rfl
  | ok outputs t =>
      rw [bind_of_ok hrun]
      change _ = totalOf .inputs (outputs.map Output.amount)
      cases totalOf .inputs (outputs.map Output.amount) <;> rfl

theorem totalInput_known (resolver : Resolver) :
    Preserves (Known resolver) (totalInput resolver) := by
  intro s
  rw [totalInput, get_bind_run]
  refine Preserves.bind (R := Known resolver) Known.trans
    (resolveFrom_known resolver 0 s.transaction.inputs.length) (fun outputs t => ?_) s
  cases totalOf .inputs (outputs.map Output.amount) <;> exact Known.refl t

theorem answer_fee (resolver : Resolver) (s : Spending) :
    answer (fee resolver s) = s.transaction.surplus resolver := by
  have hanswer := answer_totalInput resolver s
  rw [Transaction.surplus, ← hanswer, fee]
  cases hrun : totalInput resolver s with
  | error e t =>
      rw [bind_of_error hrun]
      rfl
  | ok spent t =>
      -- Looking up what is spent does not change the outputs.
      have hknown : t.transaction.resolved resolver = s.transaction.resolved resolver :=
        (totalInput_known resolver).of_ok hrun
      have houtputs : t.transaction.outputs = s.transaction.outputs := by
        change (t.transaction.resolved resolver).outputs = (s.transaction.resolved resolver).outputs
        rw [hknown]
      rw [bind_of_ok hrun, ← houtputs]
      cases htotal : totalOf .outputs (t.transaction.outputs.map Output.amount) with
      | error e =>
          have hcreated : totalOutput t = .error e t := by rw [totalOutput, htotal]
          rw [bind_of_error hcreated]
          rfl
      | ok created =>
          have hcreated : totalOutput t = .ok created t := by rw [totalOutput, htotal]
          rw [bind_of_ok hcreated]
          change answer ((if _ then pure _ else throw _ : SpendM Int) t) =
            (if _ then pure _ else throw _ : Except TransactionError Int)
          split_ifs <;> rfl

theorem fee_known (resolver : Resolver) : Preserves (Known resolver) (fee resolver) := by
  refine (totalInput_known resolver).bind Known.trans fun spent => ?_
  refine Preserves.bind Known.trans (fun s => ?_) fun created => ?_
  · unfold totalOutput
    cases totalOf .outputs (s.transaction.outputs.map Output.amount) <;> exact Known.refl s
  · exact .ite (.pure Known.refl _) (.throw Known.refl _)

theorem signatureHash_known (resolver : Resolver) (index : Nat) (flag : SighashFlag) :
    Preserves (Known resolver) (signatureHash resolver index flag) := by
  refine (resolve_known resolver index).bind Known.trans fun spent s => ?_
  rw [get_bind_run]
  cases Sighash.digest s.transaction index flag spent.lockingScript spent.amount <;>
    exact Known.refl s

theorem verifyFrom_known (resolver : Resolver) (index count : Nat) :
    Preserves (Known resolver) (verifyFrom resolver index count) := by
  induction count generalizing index with
  | zero => exact .pure Known.refl true
  | succ count ih =>
      refine (verifyInput_known resolver index).bind Known.trans fun valid => ?_
      exact .ite (ih (index + 1)) (.pure Known.refl false)

end Spending

/-! ## Queries -/

inductive Query
  | verify
  | verifyInput (index : Nat)
  | signatureHash (index : Nat) (flag : SighashFlag)
  | totalInput
  | fee
  deriving DecidableEq

namespace Query

abbrev Answer : Query → Type
  | verify => Bool
  | verifyInput _ => Bool
  | signatureHash _ _ => ByteVector 32
  | totalInput => UInt64
  | fee => Int

def run (resolver : Resolver) : (q : Query) → SpendM q.Answer
  | verify => Spending.verify resolver
  | verifyInput index => Spending.verifyInput resolver index
  | signatureHash index flag => Spending.signatureHash resolver index flag
  | totalInput => Spending.totalInput resolver
  | fee => Spending.fee resolver

def runAll (resolver : Resolver) (queries : List Query) (s : Spending) : Spending :=
  queries.foldl (fun s q => left (q.run resolver s)) s

def answerOn (resolver : Resolver) (tx : Transaction) :
    (q : Query) → Except TransactionError q.Answer
  | verify => Spending.firstRefusal
      ((List.range' 0 tx.inputs.length).map (tx.answerAt resolver))
  | verifyInput index => tx.answerAt resolver index
  | signatureHash index flag => tx.digestAt resolver index flag
  | totalInput => tx.totalSpent resolver
  | fee => tx.surplus resolver

open Spending (Known)

variable {resolver : Resolver} {tx : Transaction} {s t : Spending}

theorem answer_run (resolver : Resolver) (q : Query) (s : Spending) :
    answer (q.run resolver s) = q.answerOn resolver s.transaction := by
  cases q with
  | verify =>
      rw [run, Spending.verify, get_bind_run]
      exact Spending.answer_verifyFrom resolver 0 _ s
  | verifyInput index => exact Spending.answer_verifyInput resolver index s
  | signatureHash index flag => exact Spending.answer_signatureHash resolver index flag s
  | totalInput => exact Spending.answer_totalInput resolver s
  | fee => exact Spending.answer_fee resolver s

theorem answerOn_resolved (resolver : Resolver) (q : Query) (tx : Transaction) :
    q.answerOn resolver (tx.resolved resolver) = q.answerOn resolver tx := by
  cases q with
  | verify =>
      rw [answerOn, answerOn, Transaction.answerAt_resolved, Transaction.length_inputs_resolved]
  | verifyInput index => exact congrFun (Transaction.answerAt_resolved resolver tx) index
  | signatureHash index flag => exact Transaction.digestAt_resolved resolver tx index flag
  | totalInput => exact Transaction.totalSpent_resolved resolver tx
  | fee => exact Transaction.surplus_resolved resolver tx

/-- No query changes more than it makes known. -/
theorem run_known (resolver : Resolver) (q : Query) :
    Preserves (Known resolver) (q.run resolver) := by
  cases q with
  | verify =>
      intro s
      rw [run, Spending.verify, get_bind_run]
      exact Spending.verifyFrom_known resolver 0 _ s
  | verifyInput index => exact Spending.verifyInput_known resolver index
  | signatureHash index flag => exact Spending.signatureHash_known resolver index flag
  | totalInput => exact Spending.totalInput_known resolver
  | fee => exact Spending.fee_known resolver

theorem answer_run_of_known (h : Known resolver s t) (q : Query) :
    answer (q.run resolver t) = answer (q.run resolver s) := by
  rw [answer_run, answer_run, ← answerOn_resolved resolver q t.transaction, h, answerOn_resolved]

theorem runAll_known (resolver : Resolver) (queries : List Query) (s : Spending) :
    Known resolver s (runAll resolver queries s) := by
  induction queries generalizing s with
  | nil => exact .refl s
  | cons q queries ih => exact (run_known resolver q s).trans (ih _)

/-- Whatever was asked before, the answer is that of the transaction as it was. -/
theorem answer_runAll (resolver : Resolver) (before : List Query) (q : Query) (s : Spending) :
    answer (q.run resolver (runAll resolver before s)) = answer (q.run resolver s) :=
  answer_run_of_known (runAll_known resolver before s) q

/-- A transaction and what its bytes and its chain tell of it give the same answers, and neither
answers otherwise for what it was asked before. -/
theorem answers_of_bytes (hin : tx.inputs ≠ []) (hcount : tx.Countable)
    (hagrees : tx.Agrees resolver) :
    ∃ copy, Transaction.decode tx.encode = .ok copy ∧
      ∀ q : Query,
        answer (q.run resolver (.start tx)) =
          answer (q.run resolver (.start (copy.onChain tx.chain))) ∧
        ∀ before : List Query,
          answer (q.run resolver (runAll resolver before (.start tx))) =
            answer (q.run resolver (.start (copy.onChain tx.chain))) ∧
          answer (q.run resolver (runAll resolver before (.start (copy.onChain tx.chain)))) =
            answer (q.run resolver (.start (copy.onChain tx.chain))) := by
  refine ⟨tx.written, Transaction.decode_encode hin hcount, fun q => ?_⟩
  have hcopy : Known resolver (.start (tx.written.onChain tx.chain)) (.start tx) := by
    rw [Transaction.onChain_written]
    exact (Transaction.resolved_forget hagrees).symm
  have hsame := answer_run_of_known hcopy q
  refine ⟨hsame, fun before => ⟨?_, answer_runAll resolver before q _⟩⟩
  exact (answer_runAll resolver before q _).trans hsame

/-- One input remembers what the resolver says, the other has not found it yet. -/
theorem answers_of_bytes_goldSpend :
    Transaction.goldSpend.Agrees (fun _ => .ok ⟨7, ⟨[0xac]⟩⟩) ∧
      ∃ copy, Transaction.decode Transaction.goldSpend.encode = .ok copy ∧
        answer (totalInput.run (fun _ => .ok ⟨7, ⟨[0xac]⟩⟩)
          (runAll (fun _ => .ok ⟨7, ⟨[0xac]⟩⟩) [verify, fee] (.start Transaction.goldSpend))) =
        answer (totalInput.run (fun _ => .ok ⟨7, ⟨[0xac]⟩⟩)
          (.start (copy.onChain .bitcoinGold))) := by
  have hagrees : Transaction.goldSpend.Agrees (fun _ => .ok ⟨7, ⟨[0xac]⟩⟩) := by
    simp [Transaction.Agrees, Transaction.goldSpend]
  obtain ⟨copy, hdecode, hanswers⟩ := answers_of_bytes
    (by decide) ⟨by decide, by decide, by decide, by decide⟩ hagrees
  exact ⟨hagrees, copy, hdecode, ((hanswers totalInput).2 [verify, fee]).1⟩

end Query

end UtxoSpend
