import UtxoSpend.Script.ScriptError
import UtxoSpend.Text.Base58Check
import UtxoSpend.Hash.Compound

/-!
# Addresses

An address is a version and a hash, written in Base58 with a checksum. What the hash commits to
depends on the chain on which the version is used.
-/

namespace UtxoSpend

structure Address where
  version : UInt8
  hash : ByteVector 20
  deriving DecidableEq

namespace Address

def ofPublicKeyBytes (version : UInt8) (key : Bytes) : Address := ⟨version, Hash.hash160 key⟩

def toText (a : Address) : String := Base58Check.encode (a.version :: a.hash.bytes)

def ofPayload? : Bytes → Option Address
  | [] => none
  | version :: hash => (ByteVector.ofBytes? 20 hash).map fun hash => ⟨version, hash⟩

def ofText (text : String) : Except ScriptError Address :=
  match Base58Check.decode text with
  | .error e => .error (.badAddress text (.undecodable e))
  | .ok payload =>
    match ofPayload? payload with
    | some a => .ok a
    | none => .error (.badAddress text (.wrongLength payload.length))

end Address

end UtxoSpend
