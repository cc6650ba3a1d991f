import UtxoSpend.Machine.State

/-!
# Lock times

Two opcodes compare the top item with the transaction's lock time or with the input's sequence. Both
leave the stack as it is. Lock times come in two kinds, heights and times, which do not compare.
-/

namespace UtxoSpend.LockTime

/-- Lock times from here on are times, those below are heights. -/
def threshold : Nat := 500000000

def finalSequence : UInt32 := 0xffffffff

/-- Set in a sequence that makes no demand. -/
def disabledBit : Nat := 31

/-- Set in a sequence that counts time rather than blocks. -/
def timeFlag : Nat := 0x400000

/-- The bits of a sequence that are compared: its kind and its amount. -/
def comparedBits : Nat := timeFlag ||| 0xffff

def operandLength : Nat := 5

/-- Both are of one kind, and the required one is reached. -/
def compare (actual limit required : Nat) : Except Failure Unit :=
  if (actual < limit) != (required < limit) then
    .error (.lockTime (.differentKinds actual required))
  else if actual < required then .error (.lockTime (.notReached actual required))
  else .ok ()

def readOperand (env : Env) (stack : Stack) : Except Failure Nat :=
  match stack with
  | [] => .error (.stackIndex 0 0)
  | item :: _ =>
    match Number.decode ⟨operandLength, env.has .minimalData⟩ item with
    | .error e => .error e
    | .ok n => if n < 0 then .error (.negativeLockTime n.toInt) else .ok n.toInt.toNat

/-- Whether the transaction may be spent at the lock time on top of the stack. -/
def checkLockTime (env : Env) (stack : Stack) : Except Failure Unit := do
  let required ← readOperand env stack
  match env.context with
  | none => throw (.noContext .lockTime)
  | some tx =>
    compare tx.lockTime.toNat threshold required
    if tx.sequenceOf env.inputIndex = finalSequence then
      throw (.lockTime .finalInput)

/-- Whether the input is as old as the top of the stack demands. -/
def checkSequence (env : Env) (stack : Stack) : Except Failure Unit := do
  let required ← readOperand env stack
  if required.testBit disabledBit then
    return
  match env.context with
  | none => throw (.noContext .sequence)
  | some tx =>
    if tx.version < 2 then
      throw (.lockTime (.oldVersion tx.version))
    let sequence := (tx.sequenceOf env.inputIndex).toNat
    if sequence.testBit disabledBit then
      throw (.lockTime (.disabledSequence (tx.sequenceOf env.inputIndex)))
    compare (sequence &&& comparedBits) timeFlag (required &&& comparedBits)

end UtxoSpend.LockTime
