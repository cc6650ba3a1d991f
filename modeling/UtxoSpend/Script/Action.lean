import UtxoSpend.Bytes.Basic

/-!
# What opcodes ask for

Opcodes are bytes; their meaning falls into few kinds. Most of them only rearrange or compute on the
data stack, and are gathered in `StackOp`.
-/

namespace UtxoSpend

inductive UnaryOp
  | increment
  | decrement
  | negate
  | absolute
  | isZero
  | isNonzero
  deriving DecidableEq

inductive BinaryOp
  | add
  | sub
  | boolAnd
  | boolOr
  | equal
  | notEqual
  | less
  | greater
  | lessOrEqual
  | greaterOrEqual
  | min
  | max
  deriving DecidableEq

inductive HashOp
  | ripemd160
  | sha1
  | sha256
  | hash160
  | hash256
  deriving DecidableEq

/-- Operations on the data stack alone. Counts are in items. -/
inductive StackOp
  | push (item : Bytes)
  | drop (count : Nat)
  | dup (count : Nat)
  | copySecond (count : Nat)
  | rot (count : Nat)
  | swap (count : Nat)
  | nip
  | tuck
  | ifDup
  | depth
  | pick
  | roll
  | size
  | equal
  | unary (op : UnaryOp)
  | binary (op : BinaryOp)
  | within
  | hash (op : HashOp)
  deriving DecidableEq

inductive VerifyKind
  | verify
  | equal
  | numEqual
  | checkSig
  | checkMultiSig
  deriving DecidableEq

inductive Action
  | pushData
  | stack (op : StackOp)
  /-- A stack operation whose result must be true. -/
  | stackVerify (op : StackOp) (kind : VerifyKind)
  | verify
  | nothing
  /-- Nothing, as long as no later rule gives the opcode a meaning. -/
  | upgradable
  | checkLockTime
  | checkSequence
  | branch (negated : Bool)
  | otherwise
  | endBranch
  | toAlt
  | fromAlt
  | codeSeparator
  | checkSig (verify : Bool)
  | checkMultiSig (verify : Bool)
  | earlyReturn
  /-- Fails even in a branch that is not executed. -/
  | disabled
  | reserved
  deriving DecidableEq

end UtxoSpend
