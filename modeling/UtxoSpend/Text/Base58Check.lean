import UtxoSpend.DecodeError
import UtxoSpend.Hash.Compound

/-!
# Base58 text with a checksum

The first four bytes of the double SHA-256 of the payload follow it. Addresses and private keys are
written this way.
-/

namespace UtxoSpend.Base58Check

def checksumSize : Nat := 4

def checksum (payload : Bytes) : Bytes := (Hash.sha256d payload).bytes.take checksumSize

/-- A payload and its checksum as text. -/
def encode (payload : Bytes) : String := Base58.encode (payload ++ checksum payload)

def verify (decoded : Bytes) : Except DecodeError Bytes :=
  if decoded.length < checksumSize then .error (.base58 .tooShort)
  else
    let payload := decoded.take (decoded.length - checksumSize)
    if decoded.drop (decoded.length - checksumSize) = checksum payload then .ok payload
    else .error .checksumMismatch

def decode (text : String) : Except DecodeError Bytes :=
  match Base58.decode text with
  | .error e => .error (.base58 e)
  | .ok decoded => verify decoded

end UtxoSpend.Base58Check
