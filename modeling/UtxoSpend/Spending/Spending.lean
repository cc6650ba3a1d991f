import UtxoSpend.Spending.UtxoSet
import UtxoSpend.Sighash.Digest

/-!
# Working on a transaction

Verifying and signing need the outputs that the inputs spend. They are looked up at most once an
input and remembered in it; every question to the source is recorded.
-/

namespace UtxoSpend

/-- A transaction at work, and the references asked for so far. -/
structure Spending where
  transaction : Transaction
  lookups : List OutPoint
  deriving DecidableEq

/-- An operation on a transaction, which keeps what was found before a failure. -/
abbrev SpendM := EStateM TransactionError Spending

namespace Spending

def start (tx : Transaction) : Spending := ⟨tx, []⟩

def inputAt (index : Nat) : SpendM Input := fun s =>
  match s.transaction.inputs[index]? with
  | some input => .ok input s
  | none => .error (.noInput index s.transaction.inputs.length) s

def modifyInput (index : Nat) (f : Input → Input) : SpendM Unit :=
  modify fun s =>
    { s with transaction := { s.transaction with inputs := s.transaction.inputs.modify index f } }

def missing (point : OutPoint) (cause : TransactionError) : TransactionError :=
  if cause.isMissingOutput then cause else .lookupFailed point cause

def lookUp (resolver : Resolver) (point : OutPoint) : SpendM Output := fun s =>
  let s := { s with lookups := s.lookups ++ [point] }
  match resolver point with
  | .ok output => .ok output s
  | .error e => .error (missing point e) s

/-- The output that the input at `index` spends: remembered, or looked up and remembered. -/
def resolve (resolver : Resolver) (index : Nat) : SpendM Output := do
  let input ← inputAt index
  match input.spent with
  | some output => return output
  | none =>
    let output ← lookUp resolver input.previous
    modifyInput index (·.remember output)
    return output

/-- The outputs spent by `count` inputs from position `index` on. -/
def resolveFrom (resolver : Resolver) (index : Nat) : Nat → SpendM (List Output)
  | 0 => pure []
  | count + 1 => do
    let output ← resolve resolver index
    let outputs ← resolveFrom resolver (index + 1) count
    return output :: outputs

/-- The sum of two amounts, unless it leaves 64 bits. -/
def addAmounts? (a b : UInt64) : Option UInt64 :=
  if a.toNat + b.toNat < UInt64.size then some (a + b) else none

def sumAmounts? (amounts : List UInt64) : Option UInt64 := amounts.foldlM addAmounts? 0

def totalOf (side : AmountDefect) (amounts : List UInt64) : Except TransactionError UInt64 :=
  match sumAmounts? amounts with
  | some total => .ok total
  | none => .error (.amount side)

def totalOutput : SpendM UInt64 := fun s =>
  match totalOf .outputs (s.transaction.outputs.map Output.amount) with
  | .ok total => .ok total s
  | .error e => .error e s

def totalInput (resolver : Resolver) : SpendM UInt64 := do
  let outputs ← resolveFrom resolver 0 (← get).transaction.inputs.length
  match totalOf .inputs (outputs.map Output.amount) with
  | .ok total => return total
  | .error e => throw e

def fee (resolver : Resolver) : SpendM Int := do
  let spent ← totalInput resolver
  let created ← totalOutput
  let difference : Int := spent.toNat - created.toNat
  if Int64.minValue.toInt ≤ difference ∧ difference ≤ Int64.maxValue.toInt then
    return difference
  else
    throw (.amount (.fee difference))

/-- The digest to be signed for an input, whose code is the locking script that it unlocks. -/
def signatureHash (resolver : Resolver) (index : Nat) (flag : SighashFlag) :
    SpendM (ByteVector 32) := do
  let spent ← resolve resolver index
  match Sighash.digest (← get).transaction index flag spent.lockingScript spent.amount with
  | .ok digest => return digest
  | .error e => throw e

end Spending

end UtxoSpend
