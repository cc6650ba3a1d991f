import UtxoSpend.Transaction.Codec

/-!
# Known outputs

A set of outputs by their references answers the question what an input spends.
-/

namespace UtxoSpend

abbrev Resolver := OutPoint → Except TransactionError Output

/-- Outputs by reference, each reference at most once. -/
structure UtxoSet where
  entries : List (OutPoint × Output)

namespace UtxoSet

def empty : UtxoSet := ⟨[]⟩

def size (set : UtxoSet) : Nat := set.entries.length

def isEmpty (set : UtxoSet) : Bool := set.entries.isEmpty

def find? (set : UtxoSet) (point : OutPoint) : Option Output := set.entries.lookup point

/-- Adds an output, in place of the one that had the reference before. -/
def insert (set : UtxoSet) (point : OutPoint) (output : Output) : UtxoSet :=
  ⟨(point, output) :: set.entries.filter fun e => e.1 != point⟩

/-- Adds outputs of the transaction with an id, the first of them at position `i`. -/
def insertFrom (set : UtxoSet) (id : TxId) (i : Nat) : List Output → UtxoSet
  | [] => set
  | output :: r => (set.insert ⟨id, UInt32.ofNat i⟩ output).insertFrom id (i + 1) r

def insertAll (set : UtxoSet) (tx : Transaction) : UtxoSet := set.insertFrom tx.id 0 tx.outputs

def resolver (set : UtxoSet) : Resolver := fun point =>
  match set.find? point with
  | some output => .ok output
  | none => .error (.unknownOutput point)

end UtxoSet

end UtxoSpend
