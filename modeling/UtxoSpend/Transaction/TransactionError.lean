import UtxoSpend.Machine.Failure
import UtxoSpend.Transaction.OutPoint

/-!
# Why transactions are refused

A script that evaluates to a refusal is no error: the input is then simply not valid. Errors are
defects of the data, outputs that cannot be found, and requests that make no sense.
-/

namespace UtxoSpend

inductive TransactionField
  | version
  | inputCount
  | previousId
  | outputIndex
  | unlockingScript
  | sequence
  | outputCount
  | amount
  | lockingScript
  | lockTime
  deriving DecidableEq

inductive TransactionDefect
  | field (part : TransactionField) (cause : DecodeError)
  | trailing (count : Nat)
  | noInputs
  | hex (cause : HexError)
  | idHex (cause : HexError)
  | idLength (actual : Nat)
  deriving DecidableEq

inductive TransactionScriptDefect
  | failed (failure : Failure)
  | noSignature
  | noPublicKey
  deriving DecidableEq

inductive AmountDefect
  | inputs
  | outputs
  | fee (value : Int)
  deriving DecidableEq

inductive ChainDefect
  | idWithoutAlgorithm (id : UInt32)
  | algorithmWithoutId
  deriving DecidableEq

/-- Why an operation on a transaction fails. -/
inductive TransactionError
  | malformed (defect : TransactionDefect)
  | unknownOutput (point : OutPoint)
  /-- A source of outputs reports that one is missing. -/
  | missingOutput (report : String)
  /-- A source of outputs failed in some other way. -/
  | lookupFailed (point : OutPoint) (cause : TransactionError)
  | singleWithoutOutput (index outputs : Nat)
  | invalidScript (defect : TransactionScriptDefect)
  | segwit
  | signing (report : String)
  | noInput (index inputs : Nat)
  | badSighashFlag (value : UInt32)
  | amount (defect : AmountDefect)
  | unknownChain (name : String)
  | inconsistentChain (name : String) (defect : ChainDefect)
  | script (cause : ScriptError)
  | decode (cause : DecodeError)
  deriving DecidableEq

namespace TransactionField

def name : TransactionField → String
  | version => "version"
  | inputCount => "input count"
  | previousId => "previous txid"
  | outputIndex => "output index"
  | unlockingScript => "unlocking script"
  | sequence => "sequence number"
  | outputCount => "output count"
  | amount => "amount"
  | lockingScript => "locking script"
  | lockTime => "lock time"

end TransactionField

namespace TransactionDefect

def message : TransactionDefect → String
  | field part cause => s!"reading {part.name}: {cause.message}"
  | trailing count => s!"trailing {count} bytes after transaction"
  | noInputs => "transaction has no inputs"
  | hex cause => s!"invalid hex: {cause.message}"
  | idHex cause => s!"invalid txid hex: {cause.message}"
  | idLength actual => s!"txid is {actual} bytes"

end TransactionDefect

namespace TransactionScriptDefect

def message : TransactionScriptDefect → String
  | failed failure => failure.report
  | noSignature => "unlocking script has no signature push"
  | noPublicKey => "unlocking script has no public key push"

end TransactionScriptDefect

namespace AmountDefect

def message : AmountDefect → String
  | inputs => "sum of inputs exceeds u64"
  | outputs => "sum of outputs exceeds u64"
  | fee value => s!"fee {value} does not fit in i64"

end AmountDefect

namespace ChainDefect

def message : ChainDefect → String
  | idWithoutAlgorithm id => s!"fork id {id.toNat} without the preimage algorithm"
  | algorithmWithoutId => "preimage algorithm without a fork id"

end ChainDefect

namespace TransactionError

def message : TransactionError → String
  | malformed defect => s!"malformed transaction: {defect.message}"
  | unknownOutput point => s!"missing utxo data: {point.toText} not found"
  | missingOutput report => s!"missing utxo data: {report}"
  | lookupFailed point cause => s!"missing utxo data: {point.toText}: {cause.message}"
  | singleWithoutOutput index outputs =>
    s!"sighash single on input {index} but transaction has {outputs} outputs"
  | invalidScript defect => s!"invalid script: {defect.message}"
  | segwit => "unsupported encoding: segwit marker and flag"
  | signing report => s!"signing error: {report}"
  | noInput index inputs => s!"input index {index} out of range (tx has {inputs} inputs)"
  | badSighashFlag value => "invalid sighash flag 0x" ++ Text.hexPadded 8 value.toNat
  | amount defect => s!"amount overflow: {defect.message}"
  | unknownChain name => s!"unknown chain: {name}"
  | inconsistentChain name defect => s!"inconsistent chain variant: {name}: {defect.message}"
  | script cause => s!"script error: {cause.message}"
  | decode cause => s!"primitives error: {cause.message}"

def isMissingOutput : TransactionError → Bool
  | unknownOutput _ | missingOutput _ | lookupFailed _ _ => true
  | _ => false

end TransactionError

end UtxoSpend
