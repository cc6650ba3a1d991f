import UtxoSpend.Hash.Compound
import UtxoSpend.Hash.Sha1
import UtxoSpend.Machine.Number

/-!
# Stacks

A stack is the list of its items, the top one first. A failed operation has a stack as its result
too: what was popped before the failure stays popped. Positions count from the top.
-/

namespace UtxoSpend

abbrev Stack := List Bytes

/-- An operation on a stack, which it leaves changed also when it fails. -/
abbrev StackM := EStateM Failure Stack

namespace Stack

def push (item : Bytes) : StackM Unit := fun s => .ok () (item :: s)

def pushNumber (n : Int64) : StackM Unit := push (Number.encode n)

def pushBool (b : Bool) : StackM Unit := push (Truth.encode b)

def pop : StackM Bytes
  | [] => .error (.stackIndex 0 0) []
  | item :: s => .ok item s

def popNumber (rule : NumberRule) : StackM Int64 := do
  let item ← pop
  match Number.decode rule item with
  | .ok n => pure n
  | .error e => throw e

def popBool : StackM Bool := do
  return Truth.holds (← pop)

/-- Takes `count` items; the first of the list was the top one. -/
def popMany : Nat → StackM (List Bytes)
  | 0 => pure []
  | count + 1 => do
    let item ← pop
    let items ← popMany count
    return item :: items

def peek (n : Nat) : StackM Bytes := fun s =>
  match s[n]? with
  | some item => .ok item s
  | none => .error (.stackIndex n s.length) s

def remove (n : Nat) : StackM Bytes := fun s =>
  match s[n]? with
  | some item => .ok item (s.eraseIdx n)
  | none => .error (.stackIndex n s.length) s

def pick (n : Nat) : StackM Unit := do
  push (← peek n)

def roll (n : Nat) : StackM Unit := do
  push (← remove n)

def times (op : StackM Unit) : Nat → StackM Unit
  | 0 => pure ()
  | count + 1 => do
    op
    times op count

def nip (n : Nat) : StackM Unit := do
  discard (remove n)

def drop (count : Nat) : StackM Unit := fun s =>
  if s.length < count then .error (.stackIndex (count - 1 : Nat) s.length) s
  else .ok () (List.drop count s)

def dup (count : Nat) : StackM Unit := times (pick (count - 1)) count

/-- The position of the lowest item of some blocks of `count` items.  It is computed in 64-bit
words, so it wraps around. -/
def lowest (blocks count : Nat) : Nat := (UInt64.ofNat blocks * UInt64.ofNat count - 1).toNat

/-- Moves the third block of `count` items to the top. -/
def rot (count : Nat) : StackM Unit := times (roll (lowest 3 count)) count

def swap (count : Nat) : StackM Unit := times (roll (lowest 2 count)) count

def copySecond (count : Nat) : StackM Unit := times (pick (lowest 2 count)) count

/-- Copies the top item below the second one. -/
def tuck : StackM Unit := do
  let top ← pop
  let second ← pop
  push top
  push second
  push top

/-- Takes a position that must lie in the stack. -/
def popPosition (rule : NumberRule) : StackM Nat := do
  let n ← popNumber rule
  let size := (← get).length
  if n < 0 ∨ (size : Int) ≤ n.toInt then
    throw (.stackIndex n.toInt size)
  else
    return n.toInt.toNat

end Stack

namespace HashOp

def apply : HashOp → Bytes → Bytes
  | ripemd160, bs => (Hash.Ripemd160.hash bs).bytes
  | sha1, bs => (Hash.Sha1.hash bs).bytes
  | sha256, bs => (Hash.Sha256.hash bs).bytes
  | hash160, bs => (Hash.hash160 bs).bytes
  | hash256, bs => (Hash.sha256d bs).bytes

end HashOp

namespace StackOp

def run (rule : NumberRule) : StackOp → StackM Unit
  | push item => Stack.push item
  | drop count => Stack.drop count
  | dup count => Stack.dup count
  | copySecond count => Stack.copySecond count
  | rot count => Stack.rot count
  | swap count => Stack.swap count
  | nip => Stack.nip 1
  | tuck => Stack.tuck
  | ifDup => do
    let item ← Stack.peek 0
    if Truth.holds item then
      Stack.push item
  | depth => do
    Stack.pushNumber (Int64.ofNat (← get).length)
  | pick => do
    Stack.pick (← Stack.popPosition rule)
  | roll => do
    Stack.roll (← Stack.popPosition rule)
  | size => do
    Stack.pushNumber (Int64.ofNat (← Stack.peek 0).length)
  | equal => do
    let a ← Stack.pop
    let b ← Stack.pop
    Stack.pushBool (a == b)
  | unary op => do
    Stack.pushNumber (op.apply (← Stack.popNumber rule))
  | binary op => do
    let b ← Stack.popNumber rule
    let a ← Stack.popNumber rule
    Stack.pushNumber (op.apply a b)
  | within => do
    let upper ← Stack.popNumber rule
    let lower ← Stack.popNumber rule
    let n ← Stack.popNumber rule
    Stack.pushBool (lower ≤ n && n < upper)
  | hash op => do
    Stack.push (op.apply (← Stack.pop))

end StackOp

end UtxoSpend
