import Mathlib
import UtxoSpend.Proofs.Effect
import UtxoSpend.Proofs.Sighash.Digest
import UtxoSpend.Proofs.Transaction.RoundTrip
import UtxoSpend.Spending.Verify

/-!
# Finding the output that an input spends

What an input spends is remembered or asked of the resolver.  Main statement: where it can be told,
it is found, and nothing of the transaction changes but what its inputs remember.
-/

namespace UtxoSpend

def Input.spends (resolver : Resolver) (input : Input) : Except TransactionError Output :=
  match input.spent with
  | some output => .ok output
  | none => resolver input.previous

namespace Transaction

def forget (tx : Transaction) : Transaction := { tx with inputs := tx.inputs.map Input.forget }

theorem bare_forget (tx : Transaction) : tx.forget.bare = tx.bare := by
  simp only [bare, forget, List.map_map]
  rfl

/-- Transactions that differ only in what they remember look alike to signatures. -/
theorem bare_eq_of_forget_eq {a b : Transaction} (h : a.forget = b.forget) : a.bare = b.bare := by
  rw [← bare_forget a, ← bare_forget b, h]

theorem chain_eq_of_bare_eq {a b : Transaction} (h : a.bare = b.bare) : a.chain = b.chain := by
  change a.bare.chain = b.bare.chain
  rw [h]

def updateInput (tx : Transaction) (index : Nat) (f : Input → Input) : Transaction :=
  { tx with inputs := tx.inputs.modify index f }

theorem getElem?_updateInput {tx : Transaction} {index : Nat} {input : Input}
    (h : tx.inputs[index]? = some input) (f : Input → Input) :
    (tx.updateInput index f).inputs[index]? = some (f input) := by
  rw [updateInput, List.getElem?_modify_eq, h]
  rfl

theorem map_inputs_updateInput {α : Type} {f : Input → Input} {view : Input → α}
    {tx : Transaction} {index : Nat}
    (h : ∀ input, tx.inputs[index]? = some input → view (f input) = view input) :
    (tx.updateInput index f).inputs.map view = tx.inputs.map view := by
  apply List.ext_getElem?
  intro i
  rw [List.getElem?_map, List.getElem?_map, updateInput, List.getElem?_modify]
  cases hinput : tx.inputs[i]? with
  | none => rfl
  | some input =>
      by_cases hi : index = i
      · simp [hi, h input (hi ▸ hinput)]
      · simp [hi]

theorem forget_updateInput {f : Input → Input} (h : ∀ input, (f input).forget = input.forget)
    (tx : Transaction) (index : Nat) : (tx.updateInput index f).forget = tx.forget := by
  rw [forget, forget, map_inputs_updateInput fun input _ => h input]
  rfl

theorem bare_updateInput {f : Input → Input} (h : ∀ input, (f input).bare = input.bare)
    (tx : Transaction) (index : Nat) : (tx.updateInput index f).bare = tx.bare := by
  rw [bare, bare, map_inputs_updateInput fun input _ => h input]
  rfl

end Transaction

namespace Spending

variable {resolver : Resolver} {index : Nat} {s : Spending} {input : Input} {output : Output}

theorem inputAt_run (h : s.transaction.inputs[index]? = some input) :
    inputAt index s = .ok input s := by
  rw [inputAt, h]

theorem modifyInput_run (f : Input → Input) :
    modifyInput index f s =
      .ok () { s with transaction := s.transaction.updateInput index f } := rfl

/-! ### The three ways to resolve an input -/

theorem resolve_of_remembered (hinput : s.transaction.inputs[index]? = some input)
    (hspent : input.spent = some output) : resolve resolver index s = .ok output s := by
  rw [resolve, Effect.bind_of_ok (inputAt_run hinput), hspent]
  rfl

theorem resolve_of_found (hinput : s.transaction.inputs[index]? = some input)
    (hspent : input.spent = none) (hfound : resolver input.previous = .ok output) :
    resolve resolver index s =
      .ok output ⟨s.transaction.updateInput index (·.remember output),
        s.lookups ++ [input.previous]⟩ := by
  have hlookUp : lookUp resolver input.previous s =
      .ok output { s with lookups := s.lookups ++ [input.previous] } := by
    rw [lookUp, hfound]
  rw [resolve, Effect.bind_of_ok (inputAt_run hinput), hspent]
  dsimp only
  rw [Effect.bind_of_ok hlookUp, Effect.bind_of_ok (modifyInput_run _)]
  rfl

theorem resolve_of_missing (hinput : s.transaction.inputs[index]? = some input)
    (hspent : input.spent = none) {cause : TransactionError}
    (hmissing : resolver input.previous = .error cause) :
    resolve resolver index s =
      .error (missing input.previous cause)
        { s with lookups := s.lookups ++ [input.previous] } := by
  have hlookUp : lookUp resolver input.previous s = .error (missing input.previous cause)
      { s with lookups := s.lookups ++ [input.previous] } := by
    rw [lookUp, hmissing]
  rw [resolve, Effect.bind_of_ok (inputAt_run hinput), hspent]
  dsimp only
  rw [Effect.bind_of_error hlookUp]

theorem resolve_spec (hinput : s.transaction.inputs[index]? = some input)
    (hspends : input.spends resolver = .ok output) :
    ∃ t, resolve resolver index s = .ok output t ∧ t.transaction.forget = s.transaction.forget ∧
      t.transaction.inputs[index]? = some { input with spent := some output } := by
  unfold Input.spends at hspends
  cases hspent : input.spent with
  | some known =>
      rw [hspent] at hspends
      cases hspends
      refine ⟨s, resolve_of_remembered hinput hspent, rfl, ?_⟩
      rw [hinput, ← hspent]
  | none =>
      rw [hspent] at hspends
      refine ⟨_, resolve_of_found hinput hspent hspends, ?_, ?_⟩
      · have hforget : ∀ i : Input, (i.remember output).forget = i.forget := fun _ => rfl
        exact Transaction.forget_updateInput hforget s.transaction index
      · have hget := Transaction.getElem?_updateInput hinput (·.remember output)
        rw [Input.remember, hspent] at hget
        exact hget

end Spending

end UtxoSpend
