import UtxoSpend.Machine.State

/-!
# Signature checks

A signature signs the part of the running script after the last code separator. Without the fork-id
rule, code separators and pushes of the signature itself are deleted from it first. Multiple
signatures must match keys in order, each key being tried once.
-/

namespace UtxoSpend

/-- Set in the hash type of every signature under the fork-id rule. -/
def forkIdBit : UInt8 := 0x40

namespace Exec

def signedCode (env : Env) (part : List Instruction) (signatures : List Bytes) : Script :=
  if env.has .forkId then Instruction.unparse part
  else
    Instruction.unparse (Instruction.deleteOpcode Opcode.codeSeparator
      (signatures.foldl (fun is signature => Instruction.deletePush signature is) part))

def judge (tx : TxContext) (check : SignatureCheck) : Exec Bool := fun s =>
  .ok ((tx.verdict s.checks check).getD false) { s with checks := s.checks ++ [check] }

/-- Whether a signature with its hash type is valid for a key. An empty one is not. -/
def verifySignature (env : Env) (code : Script) (signature publicKey : Bytes) : Exec Bool :=
  match signature.getLast? with
  | none => pure false
  | some hashType => do
    failIf (env.has .forkId && hashType &&& forkIdBit == 0) (.noForkId hashType)
    match env.context with
    | none => throw (.noContext .signature)
    | some tx => judge tx ⟨signature, publicKey, code, env.inputIndex, hashType⟩

def checkSig (env : Env) (script : List Instruction) : Exec Unit := do
  let publicKey ← onData Stack.pop
  let signature ← onData Stack.pop
  let part := script.drop (← get).codeStart
  let valid ← verifySignature env (signedCode env part [signature]) signature publicKey
  onData (Stack.pushBool valid)

/-- Whether the signatures match keys in order. A key that does not match is passed over, as long as
enough keys remain. -/
def matchKeys (env : Env) (code : Script) : List Bytes → List Bytes → Exec Bool
  | _, [] => pure true
  | [], _ :: _ => pure false
  | key :: keys, signature :: signatures => do
    let valid ← verifySignature env code signature key
    let left := if valid then signatures else signature :: signatures
    if keys.length < left.length then pure false else matchKeys env code keys left

def popCount (env : Env) (limit : Nat) (failure : Int → Failure) : Exec Nat := do
  let count ← onData (Stack.popNumber env.numberRule)
  failIf (count < 0 || limit < count.toInt.toNat) (failure count.toInt)
  return count.toInt.toNat

/-- Takes keys, signatures and one item more, and puts whether the signatures match. -/
def checkMultiSig (env : Env) (script : List Instruction) : Exec Unit := do
  let keyCount ← popCount env env.limits.multisigKeys (.keyCount · env.limits.multisigKeys)
  countOperations env.limits keyCount
  let keys ← onData (Stack.popMany keyCount)
  let signatureCount ← popCount env keyCount (.signatureCount · keyCount)
  let signatures ← onData (Stack.popMany signatureCount)
  let dummy ← onData Stack.pop
  failIf (env.has .strictMultisig && !dummy.isEmpty) (.dummyNotEmpty dummy.length)
  let part := script.drop (← get).codeStart
  let valid ← matchKeys env (signedCode env part signatures) keys signatures
  onData (Stack.pushBool valid)

end Exec

end UtxoSpend
