import UtxoSpend.Transaction.Codec

/-!
# The signature digest of chains with a fork id

What is hashed has ten fields of fixed order. It covers the amount that is spent and the fork id,
and uses digests of all references, sequences and outputs, so that its size does not grow with the
transaction.
-/

namespace UtxoSpend.Sighash.Preimage

/-- Stands for a digest that the flag leaves out. -/
def noDigest : ByteVector 32 := .replicate 32 0

def previousDigest (tx : Transaction) (flag : SighashFlag) : ByteVector 32 :=
  if flag.anyoneCanPay then noDigest
  else Hash.sha256d (tx.inputs.flatMap fun input => input.previous.encode)

def sequenceDigest (tx : Transaction) (flag : SighashFlag) : ByteVector 32 :=
  if !flag.anyoneCanPay && flag.base == .all then
    Hash.sha256d (tx.inputs.flatMap fun input => Wire.u32 input.sequence)
  else noDigest

def outputDigest (tx : Transaction) (index : Nat) (flag : SighashFlag) : ByteVector 32 :=
  match flag.base with
  | .all => Hash.sha256d (tx.outputs.flatMap Output.encode)
  | .none => noDigest
  | .single =>
    match tx.outputs[index]? with
    | some output => Hash.sha256d output.encode
    | none => noDigest

/-- What is hashed for the input at `index`. The fork id is the chain's, whatever the flag says. -/
def message (tx : Transaction) (index : Nat) (flag : SighashFlag) (code : Script)
    (amount : UInt64) : Except TransactionError Bytes :=
  match tx.inputs[index]? with
  | none => .error (.noInput index tx.inputs.length)
  | some input =>
    .ok (Wire.u32 tx.version
      ++ (previousDigest tx flag).bytes
      ++ (sequenceDigest tx flag).bytes
      ++ input.previous.encode
      ++ Wire.counted code.bytes
      ++ Wire.u64 amount
      ++ Wire.u32 input.sequence
      ++ (outputDigest tx index flag).bytes
      ++ Wire.u32 tx.lockTime
      ++ (flag.withForkId (tx.chain.forkId.getD 0)).encode)

end UtxoSpend.Sighash.Preimage
