import UtxoSpend.DecodeError
import UtxoSpend.Key.Signature
import UtxoSpend.Hash.Compound
import UtxoSpend.Secp256k1.Ecdsa

/-!
# Public keys

A public key is a point of the curve. It is read from a tag and one or two coordinates, and written
with the abscissa alone or with both.
-/

namespace UtxoSpend

structure PublicKey where
  point : Secp256k1.Affine
  deriving DecidableEq

namespace PublicKey

/-- The point a tag and its coordinates stand for. Tags 2 and 3 give the parity of the ordinate, tag
5 an even ordinate, tag 4 precedes both coordinates. -/
def pointOf? (tag : UInt8) (coordinates : Bytes) : Option Secp256k1.Affine :=
  if (tag = 2 ∨ tag = 3 ∨ tag = 5) ∧ coordinates.length = 32 then
    let x := Bytes.beNat coordinates
    if x < Secp256k1.fieldPrime then Secp256k1.Affine.lift? x (tag == 3) else none
  else if tag = 4 ∧ coordinates.length = 64 then
    let x := Bytes.beNat (coordinates.take 32)
    let y := Bytes.beNat (coordinates.drop 32)
    let point : Secp256k1.Affine := ⟨x, y⟩
    if x < Secp256k1.fieldPrime ∧ y < Secp256k1.fieldPrime ∧ point.isOnCurve then some point
    else none
  else none

def ofBytes : Bytes → Except DecodeError PublicKey
  | [] => .error (.publicKey .noBytes)
  | tag :: coordinates =>
    match pointOf? tag coordinates with
    | some point => .ok ⟨point⟩
    | none => .error (.publicKey .notAPoint)

def ofHex (text : String) : Except DecodeError PublicKey :=
  match Hex.decode text with
  | .error e => .error (.hex e)
  | .ok bytes => ofBytes bytes

def compressed (key : PublicKey) : Bytes :=
  (if key.point.y % 2 = 1 then 3 else 2) :: Bytes.toBE 32 key.point.x

def uncompressed (key : PublicKey) : Bytes :=
  4 :: (Bytes.toBE 32 key.point.x ++ Bytes.toBE 32 key.point.y)

/-- The hash of the compressed form, to which locking scripts commit. -/
def hash160 (key : PublicKey) : ByteVector 20 := Hash.hash160 key.compressed

/-- The number a digest stands for: its first 32 bytes. -/
def digestNumber (digest : Bytes) : Nat := Bytes.beNat (digest.take 32)

/-- Whether `sig` signs a digest. Either of the two values of `s` is accepted. -/
def verify (key : PublicKey) (digest : Bytes) (sig : Signature) : Bool :=
  Secp256k1.Ecdsa.verify key.point (digestNumber digest) sig.r.toNat sig.normalS.toNat

end PublicKey

end UtxoSpend
