import UtxoSpend.Chain.Chain
import UtxoSpend.Transaction.OutPoint

/-!
# Transactions

A transaction spends outputs of earlier ones and creates new ones. It is tied to the chain whose
rules govern its signatures; the chain is not written. An input remembers the output that it spends
once it has been found.
-/

namespace UtxoSpend

structure Output where
  amount : UInt64
  lockingScript : Script
  deriving DecidableEq

structure Input where
  previous : OutPoint
  unlockingScript : Script
  sequence : UInt32
  /-- The output that is spent, once it has been found. -/
  spent : Option Output
  deriving DecidableEq

structure Transaction where
  version : UInt32
  inputs : List Input
  outputs : List Output
  lockTime : UInt32
  chain : Chain
  deriving DecidableEq

namespace Input

def finalSequence : UInt32 := 0xffffffff

def unsigned (previous : OutPoint) : Input := ⟨previous, .empty, finalSequence, none⟩

/-- An input that spends an output of the transaction with a written id. -/
def ofIdText (text : String) (index : UInt32) : Except TransactionError Input :=
  match Hex.decode text with
  | .error e => .error (.malformed (.idHex e))
  | .ok bytes =>
    match ByteVector.ofBytes? 32 bytes with
    | none => .error (.malformed (.idLength bytes.length))
    | some id => .ok (unsigned ⟨id, index⟩)

/-- Remembers the spent output, unless one is remembered already. -/
def remember (input : Input) (output : Output) : Input :=
  { input with spent := input.spent.or (some output) }

/-- The signature in a standard unlocking script, and its hash type. -/
def signature (input : Input) : Except TransactionError (Bytes × UInt8) :=
  match input.unlockingScript.pushedData with
  | .error e => .error (.script e)
  | .ok pushes =>
    let first := pushes.headD []
    match first.getLast? with
    | none => .error (.invalidScript .noSignature)
    | some hashType => .ok (first.dropLast, hashType)

def publicKeyBytes (input : Input) : Except TransactionError Bytes :=
  match input.unlockingScript.pushedData with
  | .error e => .error (.script e)
  | .ok (_ :: key :: _) => .ok key
  | .ok _ => .error (.invalidScript .noPublicKey)

end Input

namespace Transaction

def empty : Transaction := ⟨1, [], [], 0, .bitcoin⟩

/-- Whether the transaction creates coins: its only input spends nothing. -/
def isCoinbase (tx : Transaction) : Bool :=
  match tx.inputs with
  | [input] => input.previous.isCoinbase
  | _ => false

/-- The height that a transaction creating coins puts first into its unlocking script. -/
def coinbaseHeight? (tx : Transaction) : Option UInt32 :=
  match tx.inputs with
  | [input] =>
    if input.previous.isCoinbase then
      match input.unlockingScript.firstChunk with
      | .ok (some ⟨_, some data⟩) =>
        if data.length ≤ 4 then some (UInt32.ofNat (Bytes.leNat data)) else none
      | _ => none
    else none
  | _ => none

end Transaction

end UtxoSpend
