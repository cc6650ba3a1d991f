import UtxoSpend.Script.Instruction

/-!
# Why a script fails

Every failure is a cause with the values that its text shows. Causes fall under codes; three of the
codes mean that a script is defective as a byte string, all others that it evaluates to a refusal.
-/

namespace UtxoSpend

inductive FailureCode
  | invalidFlags
  | invalidParams
  | earlyReturn
  | emptyStack
  | evalFalse
  | scriptTooBig
  | elementTooBig
  | tooManyOperations
  | stackOverflow
  | invalidPubKeyCount
  | invalidSignatureCount
  | numberTooBig
  | minimalData
  | verify
  | equalVerify
  | numEqualVerify
  | checkSigVerify
  | checkMultiSigVerify
  | disabledOpcode
  | reservedOpcode
  | malformedPush
  | invalidStackOperation
  | unbalancedConditional
  | notPushOnly
  | sigNullDummy
  | cleanStack
  | discourageUpgradableNops
  | negativeLockTime
  | unsatisfiedLockTime
  | illegalForkId
  deriving DecidableEq

inductive ScriptRole
  | unlocking
  | locking
  deriving DecidableEq

inductive ContextNeed
  | signature
  | lockTime
  | sequence
  deriving DecidableEq

inductive LockTimeDefect
  | differentKinds (actual required : Nat)
  | notReached (actual required : Nat)
  | finalInput
  | oldVersion (version : UInt32)
  | disabledSequence (sequence : UInt32)
  deriving DecidableEq

/-- Why a script fails. -/
inductive Failure
  | cleanStackAlone
  | pastEnd (script offset : Nat)
  | noContext (need : ContextNeed)
  | earlyReturn
  | emptyFinalStack
  | noRedeemScript
  | falseResult
  | scriptTooBig (role : ScriptRole) (size limit : Nat)
  | elementTooBig (size limit : Nat)
  | tooManyOperations (limit : Nat)
  | stackOverflow (size limit : Nat)
  | keyCount (count : Int) (limit : Nat)
  | signatureCount (count : Int) (limit : Nat)
  | numberTooBig (item : Bytes) (limit : Nat)
  | paddedNumber (item : Bytes)
  | wastefulPush (op : Opcode)
  | notTrue (kind : VerifyKind)
  | disabled (op : Opcode)
  | reserved (op : Opcode)
  | malformed (cause : ParseError)
  | stackIndex (index : Int) (size : Nat)
  | openConditional
  | noConditional (op : Opcode)
  | unlockingNotPushOnly
  | redeemNotPushOnly
  | dummyNotEmpty (size : Nat)
  | extraItems (count : Nat)
  | discouraged (op : Opcode)
  | negativeLockTime (value : Int)
  | lockTime (defect : LockTimeDefect)
  | noForkId (hashType : UInt8)
  deriving DecidableEq

namespace FailureCode

def name : FailureCode → String
  | invalidFlags => "InvalidFlags"
  | invalidParams => "InvalidParams"
  | earlyReturn => "EarlyReturn"
  | emptyStack => "EmptyStack"
  | evalFalse => "EvalFalse"
  | scriptTooBig => "ScriptTooBig"
  | elementTooBig => "ElementTooBig"
  | tooManyOperations => "TooManyOperations"
  | stackOverflow => "StackOverflow"
  | invalidPubKeyCount => "InvalidPubKeyCount"
  | invalidSignatureCount => "InvalidSignatureCount"
  | numberTooBig => "NumberTooBig"
  | minimalData => "MinimalData"
  | verify => "Verify"
  | equalVerify => "EqualVerify"
  | numEqualVerify => "NumEqualVerify"
  | checkSigVerify => "CheckSigVerify"
  | checkMultiSigVerify => "CheckMultiSigVerify"
  | disabledOpcode => "DisabledOpcode"
  | reservedOpcode => "ReservedOpcode"
  | malformedPush => "MalformedPush"
  | invalidStackOperation => "InvalidStackOperation"
  | unbalancedConditional => "UnbalancedConditional"
  | notPushOnly => "NotPushOnly"
  | sigNullDummy => "SigNullDummy"
  | cleanStack => "CleanStack"
  | discourageUpgradableNops => "DiscourageUpgradableNOPs"
  | negativeLockTime => "NegativeLockTime"
  | unsatisfiedLockTime => "UnsatisfiedLockTime"
  | illegalForkId => "IllegalForkID"

/-- Whether the code means a defective script rather than a refusal. -/
def isStructural : FailureCode → Bool
  | malformedPush | scriptTooBig | elementTooBig => true
  | _ => false

end FailureCode

namespace VerifyKind

def code : VerifyKind → FailureCode
  | verify => .verify
  | equal => .equalVerify
  | numEqual => .numEqualVerify
  | checkSig => .checkSigVerify
  | checkMultiSig => .checkMultiSigVerify

def name : VerifyKind → String
  | verify => "OP_VERIFY"
  | equal => "OP_EQUALVERIFY"
  | numEqual => "OP_NUMEQUALVERIFY"
  | checkSig => "OP_CHECKSIGVERIFY"
  | checkMultiSig => "OP_CHECKMULTISIGVERIFY"

end VerifyKind

namespace ScriptRole

def name : ScriptRole → String
  | unlocking => "unlocking"
  | locking => "locking"

end ScriptRole

namespace ContextNeed

def name : ContextNeed → String
  | signature => "checksig"
  | lockTime => "OP_CHECKLOCKTIMEVERIFY"
  | sequence => "OP_CHECKSEQUENCEVERIFY"

end ContextNeed

namespace LockTimeDefect

def message : LockTimeDefect → String
  | differentKinds actual required =>
    s!"mismatched locktime types -- tx locktime {actual}, stack locktime {required}"
  | notReached actual required =>
    "locktime requirement not satisfied -- locktime is greater than the transaction locktime: "
      ++ s!"{required} > {actual}"
  | finalInput => "transaction input is finalized"
  | oldVersion version => s!"invalid transaction version: {version.toNat}"
  | disabledSequence sequence =>
    "transaction sequence has sequence locktime disabled bit set: 0x" ++ Text.hexNat sequence.toNat

end LockTimeDefect

namespace Failure

def code : Failure → FailureCode
  | cleanStackAlone => .invalidFlags
  | pastEnd _ _ => .invalidParams
  | noContext _ => .invalidParams
  | earlyReturn => .earlyReturn
  | emptyFinalStack => .emptyStack
  | noRedeemScript => .emptyStack
  | falseResult => .evalFalse
  | scriptTooBig _ _ _ => .scriptTooBig
  | elementTooBig _ _ => .elementTooBig
  | tooManyOperations _ => .tooManyOperations
  | stackOverflow _ _ => .stackOverflow
  | keyCount _ _ => .invalidPubKeyCount
  | signatureCount _ _ => .invalidSignatureCount
  | numberTooBig _ _ => .numberTooBig
  | paddedNumber _ => .minimalData
  | wastefulPush _ => .minimalData
  | notTrue kind => kind.code
  | disabled _ => .disabledOpcode
  | reserved _ => .reservedOpcode
  | malformed _ => .malformedPush
  | stackIndex _ _ => .invalidStackOperation
  | openConditional => .unbalancedConditional
  | noConditional _ => .unbalancedConditional
  | unlockingNotPushOnly => .notPushOnly
  | redeemNotPushOnly => .notPushOnly
  | dummyNotEmpty _ => .sigNullDummy
  | extraItems _ => .cleanStack
  | discouraged _ => .discourageUpgradableNops
  | negativeLockTime _ => .negativeLockTime
  | lockTime _ => .unsatisfiedLockTime
  | noForkId _ => .illegalForkId

def message : Failure → String
  | cleanStackAlone => "clean stack requires BIP16"
  | pastEnd script offset => s!"program counter {script}:{offset} past end of scripts"
  | noContext need => s!"no tx context for {need.name}"
  | earlyReturn => "script returned early"
  | emptyFinalStack => "stack empty at end of script execution"
  | noRedeemScript => "no redeem script on stack for pay to script hash"
  | falseResult => "false stack entry at end of script execution"
  | scriptTooBig role size limit =>
    s!"{role.name} script size {size} is larger than the max allowed size {limit}"
  | elementTooBig size limit => s!"element size {size} exceeds max allowed size {limit}"
  | tooManyOperations limit => s!"exceeded max operation limit of {limit}"
  | stackOverflow size limit => s!"combined stack size {size} > max allowed {limit}"
  | keyCount count limit => s!"number of pubkeys {count} outside 0..={limit}"
  | signatureCount count limit => s!"number of signatures {count} outside 0..={limit}"
  | numberTooBig item limit =>
    s!"numeric value encoded as {Text.byteList item} is {item.length} bytes "
      ++ s!"which exceeds the max allowed of {limit}"
  | paddedNumber item =>
    s!"numeric value encoded as {Text.byteList item} is not minimally encoded"
  | wastefulPush op => s!"non-minimal push with opcode {op.name}"
  | notTrue kind => s!"{kind.name} failed"
  | disabled op => s!"attempt to execute disabled opcode {op.name}"
  | reserved op => s!"attempt to execute reserved opcode {op.name}"
  | malformed cause => cause.message
  | stackIndex index size => s!"index {index} is invalid for stack size {size}"
  | openConditional => "end of script reached in conditional execution"
  | noConditional op =>
    s!"encountered opcode {op.name} with no matching opcode to begin conditional execution"
  | unlockingNotPushOnly => "signature script is not push only"
  | redeemNotPushOnly => "pay to script hash is not push only"
  | dummyNotEmpty size => s!"multisig dummy argument has length {size} instead of 0"
  | extraItems count => s!"stack contains {count} unexpected items"
  | discouraged op => s!"{op.name} reserved for soft-fork upgrades"
  | negativeLockTime value => s!"negative lock time: {value}"
  | lockTime defect => defect.message
  | noForkId hashType =>
    s!"hash type 0x{Text.hexPadded 2 hashType.toNat} does not contain the fork id bit"

def report (f : Failure) : String := s!"{f.code.name}: {f.message}"

end Failure

end UtxoSpend
