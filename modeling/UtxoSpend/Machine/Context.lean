import UtxoSpend.Machine.Rules
import UtxoSpend.Script.Basic

/-!
# What a script can ask of its transaction

The machine knows nothing of transactions. It is given a context that judges signatures and answers
the lock-time opcodes, and it records every signature check that it asks for.
-/

namespace UtxoSpend

/-- One signature check: the signature with its hash type, the key, the code that is signed, and the
input in question. -/
structure SignatureCheck where
  signature : Bytes
  publicKey : Bytes
  code : Script
  inputIndex : Nat
  hashType : UInt8
  deriving DecidableEq

/-- The transaction as far as scripts can see it. -/
structure TxContext where
  lockTime : UInt32
  version : UInt32
  sequenceOf : Nat → UInt32
  /-- The verdict on a check, given the checks before it; none if the check itself breaks down,
  which counts as a refusal. -/
  verdict : List SignatureCheck → SignatureCheck → Option Bool

/-- What stays fixed while scripts run. -/
structure Env where
  flags : Flags
  limits : Limits
  context : Option TxContext
  inputIndex : Nat

namespace TxContext

/-- A context whose verdicts do not depend on what was asked before. -/
def IsPure (c : TxContext) : Prop := ∀ earlier check, c.verdict earlier check = c.verdict [] check

end TxContext

namespace Env

def has (env : Env) (rule : Flags) : Bool := env.flags.has rule

end Env

end UtxoSpend
