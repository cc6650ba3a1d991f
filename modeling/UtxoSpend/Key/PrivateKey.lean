import UtxoSpend.Key.PublicKey
import UtxoSpend.Text.Base58Check

/-!
# Private keys

A private key is a number between zero and the curve order. In wallet import format it follows a
version byte, and a flag byte says that its public key is used in compressed form.
-/

namespace UtxoSpend

structure PrivateKey where
  scalar : Nat
  scalar_pos : 0 < scalar
  scalar_lt : scalar < Secp256k1.order
  deriving DecidableEq

namespace PrivateKey

def mainVersion : UInt8 := 0x80

def testVersion : UInt8 := 0xef

/-- Follows a key whose public key is used in compressed form. -/
def compressedFlag : UInt8 := 0x01

def ofBytes (bs : Bytes) : Except DecodeError PrivateKey :=
  if bs.length ≠ 32 then .error (.privateKey (.wrongLength bs.length))
  else if h : 0 < Bytes.beNat bs ∧ Bytes.beNat bs < Secp256k1.order then
    .ok ⟨Bytes.beNat bs, h.1, h.2⟩
  else .error (.privateKey .outOfRange)

def ofSecret (secret : UInt64) : Except DecodeError PrivateKey :=
  ofBytes (Bytes.toBE 32 secret.toNat)

def ofHex (text : String) : Except DecodeError PrivateKey :=
  if text.isEmpty then .error (.privateKey .emptyText)
  else
    match Hex.decode text with
    | .error e => .error (.hex e)
    | .ok bytes => ofBytes bytes

def toBytes (key : PrivateKey) : Bytes := Bytes.toBE 32 key.scalar

def toHex (key : PrivateKey) : String := Hex.encode key.toBytes

def ofWifPayload (payload : Bytes) : Except DecodeError PrivateKey :=
  let key := ofBytes ((payload.drop 1).take 32)
  if payload.length = 34 then
    if payload[33]? = some compressedFlag then key else .error (.wif .badCompressionFlag)
  else if payload.length = 33 then key
  else .error (.wif (.badLength (payload.length + Base58Check.checksumSize)))

/-- Reads wallet import format; the version byte may have any value. -/
def ofWif (text : String) : Except DecodeError PrivateKey :=
  match Base58Check.decode text with
  | .error (.base58 e) => .error (.wif (.base58 e))
  | .error e => .error e
  | .ok payload => ofWifPayload payload

def toWif (key : PrivateKey) (version : UInt8) : String :=
  Base58Check.encode (version :: key.toBytes ++ [compressedFlag])

/-- The public key. A scalar below the order never reaches the neutral point. -/
def publicKey (key : PrivateKey) : PublicKey :=
  ⟨(Secp256k1.Point.generator.scale key.scalar).toAffine?.getD ⟨0, 0⟩⟩

def sign (key : PrivateKey) (digest : Bytes) : Except DecodeError Signature :=
  match Secp256k1.Ecdsa.sign? key.scalar (PublicKey.digestNumber digest) with
  | some (r, s) => .ok ⟨.ofNat 32 r, .ofNat 32 s⟩
  | none => .error (.signature .noNonce)

end PrivateKey

end UtxoSpend
