import UtxoSpend.Transaction.Basic
import UtxoSpend.Wire.Cursor

/-!
# Transactions on the wire

Version, counted inputs, counted outputs, lock time. At least one input is required. A count of zero
inputs followed by a one marks another encoding, which is not read here.
-/

namespace UtxoSpend

abbrev ReadTx := EStateM TransactionError Cursor

namespace ReadTx

/-- A read whose failure names the field. -/
def field {α : Type} (part : TransactionField) (read : Read α) : ReadTx α := fun c =>
  match read c with
  | .ok a c => .ok a c
  | .error e c => .error (.malformed (.field part e)) c

end ReadTx

namespace Output

def encode (o : Output) : Bytes := Wire.u64 o.amount ++ Wire.counted o.lockingScript.bytes

def read : ReadTx Output := do
  let amount ← ReadTx.field .amount Read.u64
  let script ← ReadTx.field .lockingScript Read.counted
  return ⟨amount, ⟨script⟩⟩

end Output

namespace Input

def encode (i : Input) : Bytes :=
  i.previous.encode ++ (Wire.counted i.unlockingScript.bytes ++ Wire.u32 i.sequence)

def read : ReadTx Input := do
  let id ← ReadTx.field .previousId (Read.vector 32)
  let index ← ReadTx.field .outputIndex Read.u32
  let script ← ReadTx.field .unlockingScript Read.counted
  let sequence ← ReadTx.field .sequence Read.u32
  return ⟨⟨id.reverse, index⟩, ⟨script⟩, sequence, none⟩

end Input

namespace Transaction

/-- After a count of zero inputs, marks the encoding that is not supported. -/
def segwitFlag : UInt8 := 0x01

def encode (tx : Transaction) : Bytes :=
  Wire.u32 tx.version
    ++ (CompactSize.ofLength tx.inputs ++ tx.inputs.flatMap Input.encode)
    ++ (CompactSize.ofLength tx.outputs ++ tx.outputs.flatMap Output.encode)
    ++ Wire.u32 tx.lockTime

def toHex (tx : Transaction) : String := Hex.encode tx.encode

def size (tx : Transaction) : Nat := tx.encode.length

/-- The double hash of the written transaction, in printing order. -/
def id (tx : Transaction) : TxId := (Hash.sha256d tx.encode).reverse

def refuseNoInputs : ReadTx Unit := do
  if (← get).peek? = some segwitFlag then
    throw .segwit
  else
    throw (.malformed .noInputs)

/-- Reads a transaction from the front of the data. It belongs to the first chain. -/
def read : ReadTx Transaction := do
  let version ← ReadTx.field .version Read.u32
  let inputCount ← ReadTx.field .inputCount Read.compactSize
  if inputCount = 0 then
    refuseNoInputs
  let inputs ← Read.list Input.read inputCount.toNat
  let outputCount ← ReadTx.field .outputCount Read.compactSize
  let outputs ← Read.list Output.read outputCount.toNat
  let lockTime ← ReadTx.field .lockTime Read.u32
  return ⟨version, inputs, outputs, lockTime, .bitcoin⟩

def decode (bs : Bytes) : Except TransactionError Transaction :=
  match read (Cursor.start bs) with
  | .error e _ => .error e
  | .ok tx c => if c.remaining = 0 then .ok tx else .error (.malformed (.trailing c.remaining))

def ofHex (text : String) : Except TransactionError Transaction :=
  match Hex.decode text with
  | .error e => .error (.malformed (.hex e))
  | .ok bytes => decode bytes

end Transaction

end UtxoSpend
