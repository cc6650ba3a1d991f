import UtxoSpend.Machine.Execute
import UtxoSpend.Script.Template

/-!
# Running the scripts of a spend

The unlocking script runs first, then the locking script on the stack it leaves. If the locking
script commits to the hash of a redeem script, the last item that the unlocking script pushed is
run as a third script on the items below it. The spend is good if a true item is left.
-/

namespace UtxoSpend

/-- The scripts of a spend and where their execution stands. -/
structure Machine where
  scripts : List (List Instruction)
  scriptIndex : Nat
  offset : Nat
  /-- Whether the locking script calls for a redeem script. -/
  redeems : Bool
  /-- What the unlocking script left, when a redeem script is called for. -/
  unlocked : Stack
  state : State
  deriving DecidableEq

structure Outcome where
  result : Except Failure Unit
  checks : List SignatureCheck

namespace Machine

def script (m : Machine) : List Instruction := m.scripts.getD m.scriptIndex []

def next? (m : Machine) : Option Instruction := m.script[m.offset]?

def isExecuting (m : Machine) : Bool := m.state.isExecuting

/-- How many instructions are left in the scripts that are known so far. -/
def instructionsLeft (m : Machine) : Nat :=
  (m.scripts.drop m.scriptIndex).flatten.length - m.offset

/-- Both scripts, checked and parsed, at the first instruction. -/
def start (env : Env) (unlocking locking : Script) : Except Failure Machine := do
  if env.has .cleanStack && !env.has .payToScriptHash then
    throw .cleanStackAlone
  if env.limits.scriptSize < unlocking.size then
    throw (.scriptTooBig .unlocking unlocking.size env.limits.scriptSize)
  if env.limits.scriptSize < locking.size then
    throw (.scriptTooBig .locking locking.size env.limits.scriptSize)
  if unlocking.isEmpty && locking.isEmpty then
    throw .falseResult
  let first ← unlocking.instructions.mapError .malformed
  let second ← locking.instructions.mapError .malformed
  if env.has .pushOnlyUnlocking && !Instruction.isPushOnly first then
    throw .unlockingNotPushOnly
  let redeems := env.has .payToScriptHash && locking.isPayToScriptHash
  if redeems && !Instruction.isPushOnly first then
    throw .redeemNotPushOnly
  return {
    scripts := [first, second]
    scriptIndex := if unlocking.isEmpty then 1 else 0
    offset := 0
    redeems := redeems
    unlocked := []
    state := {} }

/-- Whether the top item is true and, after the last script, no other is left if the rules say
so. -/
def checkResult (env : Env) (last : Bool) : Stack → Except Failure Unit
  | [] => .error .emptyFinalStack
  | item :: below =>
    if last && env.has .cleanStack && !below.isEmpty then .error (.extraItems below.length)
    else if Truth.holds item then .ok ()
    else .error .falseResult

/-- The locking script has run: it must have succeeded, and the redeem script comes next. -/
def queueRedeem (env : Env) (m : Machine) : Except Failure Machine := do
  checkResult env false m.state.data
  match m.unlocked with
  | [] => throw .noRedeemScript
  | redeem :: below =>
    let third ← (Instruction.parse redeem).mapError .malformed
    return { m with
      scripts := m.scripts ++ [third]
      unlocked := []
      state := { m.state with data := below } }

def advance (m : Machine) : Machine :=
  { m with scriptIndex := m.scriptIndex + 1, offset := 0, state := m.state.nextScript }

def skipEmpty (m : Machine) : Machine :=
  if m.scripts[m.scriptIndex]? = some [] then { m with scriptIndex := m.scriptIndex + 1 } else m

/-- Prepares for a redeem script: keeps the stack after the unlocking script, queues the redeem
script after the locking script. -/
def prepareRedeem (env : Env) (m : Machine) : Except Failure Machine :=
  if m.redeems && m.scriptIndex == 1 then .ok { m with unlocked := m.state.data }
  else if m.redeems && m.scriptIndex == 2 then queueRedeem env m
  else .ok m

def endScript (env : Env) (m : Machine) : EStateM.Result Failure Machine Bool :=
  if !m.state.branches.isEmpty then .error .openConditional m
  else
    match prepareRedeem env m.advance with
    | .error e => .error e m.advance
    | .ok m =>
      let m := m.skipEmpty
      .ok (m.scripts.length ≤ m.scriptIndex) m

/-- Executes one instruction. The result tells whether all scripts have run. -/
def step (env : Env) (m : Machine) : EStateM.Result Failure Machine Bool :=
  match m.next? with
  | none => .error (.pastEnd m.scriptIndex m.offset) m
  | some i =>
    match Exec.execute env m.script m.offset i m.state with
    | .error e state => .error e { m with state := state }
    | .ok () state =>
      let m := { m with state := state, offset := m.offset + 1 }
      if env.limits.stackItems < state.depth then
        .error (.stackOverflow state.depth env.limits.stackItems) m
      else if m.offset < m.script.length then .ok false m
      else endScript env m

/-- Executes instructions until all scripts have run, but at most `count`. -/
def steps (env : Env) : Nat → Machine → EStateM.Result Failure Machine Bool
  | 0, m => .ok false m
  | count + 1, m =>
    match step env m with
    | .ok false m => steps env count m
    | result => result

/-- Runs all scripts. The scripts that are known run first; if that queued a redeem script, it runs
next, and it queues none. -/
def run (env : Env) (m : Machine) : EStateM.Result Failure Machine Bool :=
  match steps env m.instructionsLeft m with
  | .ok false m => steps env m.instructionsLeft m
  | result => result

end Machine

def evaluate (env : Env) (unlocking locking : Script) : Outcome :=
  match Machine.start env unlocking locking with
  | .error e => ⟨.error e, []⟩
  | .ok m =>
    match Machine.run env m with
    | .error e m => ⟨.error e, m.state.checks⟩
    | .ok true m => ⟨Machine.checkResult env true m.state.data, m.state.checks⟩
    | .ok false m => ⟨.error (.pastEnd m.scriptIndex m.offset), m.state.checks⟩

end UtxoSpend
