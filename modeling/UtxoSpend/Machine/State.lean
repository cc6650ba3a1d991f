import UtxoSpend.Machine.Context
import UtxoSpend.Machine.Stack

/-!
# The state of a running script

Data stack, alternative stack, open conditionals, the place where the signed code begins, the number
of operations so far, and the signature checks made by all scripts of the spend.
-/

namespace UtxoSpend

structure State where
  data : Stack := []
  alt : Stack := []
  /-- One entry for every open conditional, innermost first: whether its present branch runs. -/
  branches : List Bool := []
  /-- How many instructions of the script precede the signed code. -/
  codeStart : Nat := 0
  operations : Nat := 0
  checks : List SignatureCheck := []
  deriving DecidableEq

/-- A change of the state, which keeps what was done before a failure. -/
abbrev Exec := EStateM Failure State

namespace State

def isExecuting (s : State) : Bool := s.branches.all id

def depth (s : State) : Nat := s.data.length + s.alt.length

/-- The state at the start of the next script: data and checks remain. -/
def nextScript (s : State) : State := { data := s.data, checks := s.checks }

end State

namespace Exec

def onData {α : Type} (op : StackM α) : Exec α := fun s =>
  match op s.data with
  | .ok a data => .ok a { s with data := data }
  | .error e data => .error e { s with data := data }

def onAlt {α : Type} (op : StackM α) : Exec α := fun s =>
  match op s.alt with
  | .ok a alt => .ok a { s with alt := alt }
  | .error e alt => .error e { s with alt := alt }

def failIf (condition : Bool) (failure : Failure) : Exec Unit := fun s =>
  if condition then .error failure s else .ok () s

/-- Fails unless the top item, which is taken, is true. -/
def requireTrue (kind : VerifyKind) : Exec Unit := do
  let ok ← onData Stack.popBool
  failIf (!ok) (.notTrue kind)

def countOperations (limits : Limits) (count : Nat) : Exec Unit := do
  modify fun s => { s with operations := s.operations + count }
  failIf (limits.operations < (← get).operations) (.tooManyOperations limits.operations)

end Exec

namespace Env

def numberRule (env : Env) : NumberRule := ⟨env.limits.numberLength, env.has .minimalData⟩

end Env

end UtxoSpend
