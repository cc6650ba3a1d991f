import UtxoSpend.Key.Der
import UtxoSpend.Machine.Machine
import UtxoSpend.Spending.Spending

/-!
# Verifying inputs

An input is valid if its unlocking script satisfies the script of the output that it spends. A
refusal is an answer, not an error. A signature that asks for an output that does not exist is an
error wherever in the run it was checked.
-/

namespace UtxoSpend

namespace Transaction

/-- The digest that a signature check is about; none if its hash type has no meaning. -/
def checkedDigest (tx : Transaction) (amount : UInt64) (check : SignatureCheck) :
    Option (Except TransactionError (ByteVector 32)) :=
  match SighashFlag.ofByte check.hashType tx.chain.forkId with
  | .error _ => none
  | .ok flag => some (Sighash.digest tx check.inputIndex flag check.code amount)

/-- The verdict on a signature; none if there is no digest to be signed. -/
def verdict (tx : Transaction) (amount : UInt64) (check : SignatureCheck) : Option Bool :=
  match tx.checkedDigest amount check with
  | none => some false
  | some (.error _) => none
  | some (.ok digest) =>
    match Der.decode check.signature.dropLast, PublicKey.ofBytes check.publicKey with
    | .ok signature, .ok key => some (key.verify digest.bytes signature)
    | _, _ => some false

/-- The error of a check for which there is no digest to be signed. -/
def checkError? (tx : Transaction) (amount : UInt64) (check : SignatureCheck) :
    Option TransactionError :=
  match tx.checkedDigest amount check with
  | some (.error e) => some e
  | _ => none

def context (tx : Transaction) (amount : UInt64) : TxContext where
  lockTime := tx.lockTime
  version := tx.version
  sequenceOf index :=
    match tx.inputs[index]? with
    | some input => input.sequence
    | none => 0
  verdict _ check := tx.verdict amount check

def env (tx : Transaction) (index : Nat) (amount : UInt64) : Env where
  flags := tx.chain.flags
  limits := {}
  context := some (tx.context amount)
  inputIndex := index

/-- What the outcome of the scripts means for an input. -/
def judge (tx : Transaction) (amount : UInt64) (outcome : Outcome) : Except TransactionError Bool :=
  match outcome.checks.findSome? (tx.checkError? amount) with
  | some e => .error e
  | none =>
    match outcome.result with
    | .ok () => .ok true
    | .error failure =>
      if failure.code.isStructural then .error (.invalidScript (.failed failure)) else .ok false

def satisfies (tx : Transaction) (index : Nat) (unlocking : Script) (spent : Output) :
    Except TransactionError Bool :=
  tx.judge spent.amount (evaluate (tx.env index spent.amount) unlocking spent.lockingScript)

end Transaction

namespace Spending

/-- Whether the input at a position is valid. An input that creates coins always is. -/
def verifyInput (resolver : Resolver) (index : Nat) : SpendM Bool := do
  let input ← inputAt index
  if input.previous.isCoinbase then
    return true
  else
    let spent ← resolve resolver index
    match (← get).transaction.satisfies index input.unlockingScript spent with
    | .ok valid => return valid
    | .error e => throw e

def verifyFrom (resolver : Resolver) (index : Nat) : Nat → SpendM Bool
  | 0 => pure true
  | count + 1 => do
    if ← verifyInput resolver index then
      verifyFrom resolver (index + 1) count
    else
      return false

def verify (resolver : Resolver) : SpendM Bool := do
  verifyFrom resolver 0 (← get).transaction.inputs.length

end Spending

end UtxoSpend
