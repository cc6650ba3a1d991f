import UtxoSpend.Sighash.Preimage
import UtxoSpend.Transaction.Codec

/-!
# The digest that a signature signs

By the first algorithm a changed copy of the transaction is hashed, with the flag after it. The
signed input carries the signed code and the others nothing; depending on the flag, other inputs,
outputs or sequences are left out or blanked. It does not cover the amount that is spent. Chains
choose between this algorithm and the preimage.
-/

namespace UtxoSpend.Sighash.Legacy

def inputScript (signed : Bool) (code : Script) : Bytes :=
  if signed then Wire.counted code.bytes else CompactSize.encode 0

/-- The sequence of an input in the copy: other inputs may change theirs unless all is signed. -/
def inputSequence (signed : Bool) (base : SighashBase) (input : Input) : UInt32 :=
  if !signed && base != .all then 0 else input.sequence

def writeInput (signed : Bool) (base : SighashBase) (code : Script) (input : Input) : Bytes :=
  input.previous.encode
    ++ (inputScript signed code ++ Wire.u32 (inputSequence signed base input))

/-- All inputs of the copy, the first of them at position `i`. -/
def writeInputsFrom (i index : Nat) (base : SighashBase) (code : Script) : List Input → Bytes
  | [] => []
  | input :: r =>
    writeInput (i == index) base code input ++ writeInputsFrom (i + 1) index base code r

/-- The counted inputs of the copy, when `signed` is the input at `index`. -/
def writeInputs (tx : Transaction) (index : Nat) (signed : Input) (flag : SighashFlag)
    (code : Script) : Bytes :=
  if flag.anyoneCanPay then
    CompactSize.encode 1 ++ writeInput true flag.base code signed
  else
    CompactSize.ofLength tx.inputs ++ writeInputsFrom 0 index flag.base code tx.inputs

def blankOutput : Bytes := Wire.u64 0xffffffffffffffff ++ CompactSize.encode 0

def writeOutputs (tx : Transaction) (index : Nat) (base : SighashBase) :
    Except TransactionError Bytes :=
  match base with
  | .all => .ok (CompactSize.ofLength tx.outputs ++ tx.outputs.flatMap Output.encode)
  | .none => .ok (CompactSize.encode 0)
  | .single =>
    match tx.outputs[index]? with
    | none => .error (.singleWithoutOutput index tx.outputs.length)
    | some output =>
      .ok (CompactSize.encode (UInt64.ofNat (index + 1))
        ++ ((List.replicate index blankOutput).flatten ++ output.encode))

def message (tx : Transaction) (index : Nat) (flag : SighashFlag) (code : Script) :
    Except TransactionError Bytes :=
  match tx.inputs[index]? with
  | none => .error (.noInput index tx.inputs.length)
  | some signed =>
    match writeOutputs tx index flag.base with
    | .error e => .error e
    | .ok outputs =>
      .ok (Wire.u32 tx.version ++ writeInputs tx index signed flag code ++ outputs
        ++ Wire.u32 tx.lockTime ++ flag.encode)

end UtxoSpend.Sighash.Legacy

namespace UtxoSpend.Sighash

/-- What is hashed for an input, by the algorithm of the chain. -/
def message (tx : Transaction) (index : Nat) (flag : SighashFlag) (code : Script)
    (amount : UInt64) : Except TransactionError Bytes :=
  if tx.chain.usesPreimage then Preimage.message tx index flag code amount
  else Legacy.message tx index flag code

def digest (tx : Transaction) (index : Nat) (flag : SighashFlag) (code : Script) (amount : UInt64) :
    Except TransactionError (ByteVector 32) :=
  (message tx index flag code amount).map Hash.sha256d

end UtxoSpend.Sighash
