import UtxoSpend.Machine.LockTime
import UtxoSpend.Machine.SignatureOps

/-!
# One instruction

An instruction is checked against the limits, skipped in a branch that does not run unless it
belongs to a conditional, and then performed.
-/

namespace UtxoSpend.Exec

/-- Opens a conditional; where nothing runs, the new branch does not run and nothing is taken. -/
def openBranch (negated : Bool) : Exec Unit := do
  if (← get).isExecuting then
    let condition ← onData Stack.popBool
    modify fun s => { s with branches := (condition != negated) :: s.branches }
  else
    modify fun s => { s with branches := false :: s.branches }

def flipBranch (op : Opcode) : Exec Unit := fun s =>
  match s.branches with
  | [] => .error (.noConditional op) s
  | b :: r => .ok () { s with branches := (!b) :: r }

def closeBranch (op : Opcode) : Exec Unit := fun s =>
  match s.branches with
  | [] => .error (.noConditional op) s
  | _ :: r => .ok () { s with branches := r }

def test (verdict : Except Failure Unit) : Exec Unit :=
  match verdict with
  | .ok () => pure ()
  | .error e => throw e

/-- An opcode that may yet be given a meaning. -/
def upgradable (env : Env) (op : Opcode) : Exec Unit :=
  failIf (env.has .discourageUpgradable) (.discouraged op)

def perform (env : Env) (script : List Instruction) (offset : Nat) (i : Instruction) : Exec Unit :=
  match i.op.action with
  | .pushData => onData (Stack.push i.data)
  | .stack op => onData (op.run env.numberRule)
  | .stackVerify op kind => do
    onData (op.run env.numberRule)
    requireTrue kind
  | .verify => requireTrue .verify
  | .nothing => pure ()
  | .upgradable => upgradable env i.op
  | .checkLockTime => do
    if env.has .checkLockTime then
      test (LockTime.checkLockTime env (← get).data)
    else
      upgradable env i.op
  | .checkSequence => do
    if env.has .checkSequence then
      test (LockTime.checkSequence env (← get).data)
    else
      upgradable env i.op
  | .branch negated => openBranch negated
  | .otherwise => flipBranch i.op
  | .endBranch => closeBranch i.op
  | .toAlt => do
    let item ← onData Stack.pop
    onAlt (Stack.push item)
  | .fromAlt => do
    let item ← onAlt Stack.pop
    onData (Stack.push item)
  | .codeSeparator => modify fun s => { s with codeStart := offset + 1 }
  | .checkSig verify => do
    checkSig env script
    if verify then
      requireTrue .checkSig
  | .checkMultiSig verify => do
    checkMultiSig env script
    if verify then
      requireTrue .checkMultiSig
  | .earlyReturn => throw .earlyReturn
  | .disabled => throw (.disabled i.op)
  | .reserved => throw (.reserved i.op)

/-- Executes an instruction that stands at `offset` in `script`. -/
def execute (env : Env) (script : List Instruction) (offset : Nat) (i : Instruction) :
    Exec Unit := do
  failIf (env.limits.elementSize < i.data.length)
    (.elementTooBig i.data.length env.limits.elementSize)
  if i.op.isCounted then
    countOperations env.limits 1
  failIf i.op.isDisabled (.disabled i.op)
  if (← get).isExecuting then
    failIf (env.has .minimalData && i.op.isPush && !i.isMinimalPush) (.wastefulPush i.op)
    perform env script offset i
  else if i.op.isConditional then
    perform env script offset i

end UtxoSpend.Exec
