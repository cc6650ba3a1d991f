import UtxoSpend.Script.Basic
import UtxoSpend.Hash.Compound

/-!
# The two standard locking scripts

Coins are locked to the hash of a public key or to the hash of a redeem script. Both forms are
recognised by their exact bytes.
-/

namespace UtxoSpend.Script

def payToKeyHash (hash : ByteVector 20) : Script :=
  ⟨Opcode.dup :: Opcode.hash160 :: 20 :: (hash.bytes ++ [Opcode.equalVerify, Opcode.checkSig])⟩

def payToScriptHash (hash : ByteVector 20) : Script :=
  ⟨Opcode.hash160 :: 20 :: (hash.bytes ++ [Opcode.equal])⟩

def payToScript (redeem : Script) : Script := payToScriptHash (Hash.hash160 redeem.bytes)

def isPayToKeyHash (s : Script) : Bool :=
  s.bytes.length == 25
    && s.bytes.take 3 == [Opcode.dup, Opcode.hash160, 20]
    && s.bytes.drop 23 == [Opcode.equalVerify, Opcode.checkSig]

def isPayToScriptHash (s : Script) : Bool :=
  s.bytes.length == 23
    && s.bytes.take 2 == [Opcode.hash160, 20]
    && s.bytes.drop 22 == [Opcode.equal]

/-- The hash of the public key to which the script locks. -/
def keyHash (s : Script) : Except ScriptError (ByteVector 20) :=
  if s.isEmpty then .error .empty
  else if s.isPayToKeyHash then
    match ByteVector.ofBytes? 20 ((s.bytes.drop 3).take 20) with
    | some hash => .ok hash
    | none => .error .notPayToKeyHash
  else .error .notPayToKeyHash

end UtxoSpend.Script
