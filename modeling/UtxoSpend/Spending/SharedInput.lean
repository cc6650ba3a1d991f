import UtxoSpend.Spending.Spending

/-!
# Sharing an input

Several callers may work on one input at a time. What it spends is stored only where nothing is
stored yet, and that is one step; but a caller that looks it up and finds nothing asks its source
before it stores the answer, and others may come in between. Callers take their steps one at a time,
in any order.
-/

namespace UtxoSpend

def Input.kept (input : Input) (output : Output) : Output := input.spent.getD output

namespace SharedInput

inductive Call
  /-- The output that is spent, asked of the source if it is not remembered. -/
  | resolve (resolver : Resolver)
  | seed (output : Output)
  | read

inductive Progress
  | waiting
  /-- Nothing was remembered at the look-up. -/
  | asking
  | resolved (result : Except TransactionError Output)
  /-- Whether the output of the call was stored. -/
  | seeded (stored : Bool)
  | read (seen : Option Output)

structure Attempt (ι : Type) where
  caller : ι
  output : Output
  stored : Bool

end SharedInput

/-- An input with the calls on it, those who asked their source and all attempts to store. -/
structure SharedInput (ι : Type) where
  input : Input
  progress : ι → SharedInput.Progress
  asked : List ι
  attempts : List (SharedInput.Attempt ι)

namespace SharedInput

variable {ι : Type} [DecidableEq ι]

def start (input : Input) : SharedInput ι := ⟨input, fun _ => .waiting, [], []⟩

def reach (s : SharedInput ι) (k : ι) (p : Progress) : SharedInput ι :=
  { s with progress := fun j => if j = k then p else s.progress j }

/-- Stores an output, unless one is stored already. -/
def store (s : SharedInput ι) (k : ι) (output : Output) : SharedInput ι :=
  { s with
    input := s.input.remember output
    attempts := s.attempts ++ [⟨k, output, s.input.spent.isNone⟩] }

/-- The first half of resolving: looks up what is remembered. -/
def lookUp (s : SharedInput ι) (k : ι) : SharedInput ι :=
  match s.input.spent with
  | some output => s.reach k (.resolved (.ok output))
  | none => s.reach k .asking

/-- The second half: asks the source, stores its answer unless another one is stored, and returns
what is. -/
def settle (s : SharedInput ι) (k : ι) (resolver : Resolver) : SharedInput ι :=
  let s := { s with asked := s.asked ++ [k] }
  match resolver s.input.previous with
  | .error cause => s.reach k (.resolved (.error (Spending.missing s.input.previous cause)))
  | .ok output => (s.store k output).reach k (.resolved (.ok (s.input.kept output)))

/-- The next step of the call of `k`; none if it has ended. -/
def act (calls : ι → Call) (s : SharedInput ι) (k : ι) : SharedInput ι :=
  match s.progress k, calls k with
  | .waiting, .resolve _ => s.lookUp k
  | .asking, .resolve resolver => s.settle k resolver
  | .waiting, .seed output => (s.store k output).reach k (.seeded s.input.spent.isNone)
  | .waiting, .read => s.reach k (.read s.input.spent)
  | _, _ => s

/-- The steps of a schedule, which tells whose turn it is. -/
def run (calls : ι → Call) (schedule : List ι) (s : SharedInput ι) : SharedInput ι :=
  schedule.foldl (act calls) s

end SharedInput

end UtxoSpend
