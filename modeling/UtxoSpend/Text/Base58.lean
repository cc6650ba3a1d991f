import UtxoSpend.Bytes.Basic
import UtxoSpend.Bytes.Positional
import UtxoSpend.Text.Bytes

/-!
# Base58 text

A byte string is the number it denotes in base 58, with one `1` in front for every leading zero
byte. The alphabet leaves out the characters that are easily confused in print.
-/

namespace UtxoSpend

inductive Base58Error
  | badCharacter (byte : UInt8) (position : Nat)
  | nonAscii (position : Nat)
  | tooShort
  deriving DecidableEq

namespace Base58Error

def message : Base58Error → String
  | badCharacter byte position =>
    s!"provided string contained invalid character {Text.quotedByte byte} at byte {position}"
  | nonAscii position =>
    s!"provided string contained non-ascii character starting at byte {position}"
  | tooShort => "data too short for checksum"

end Base58Error

namespace Base58

def alphabet : List Char := "123456789ABCDEFGHJKLMNPQRSTUVWXYZabcdefghijkmnopqrstuvwxyz".toList

def digitChar (d : Nat) : Char := alphabet.getD d '1'

def digitValue? (c : UInt8) : Option Nat :=
  alphabet.findIdx? fun a => a.toNat == c.toNat

def leadingZeros (bs : Bytes) : Nat := (bs.takeWhile (· == 0)).length

def encodeChars (bs : Bytes) : List Char :=
  List.replicate (leadingZeros bs) '1'
    ++ (Positional.digits 58 (Bytes.beNat bs)).reverse.map digitChar

def encode (bs : Bytes) : String := String.ofList (encodeChars bs)

def digitAt (c : UInt8 × Nat) : Except Base58Error Nat :=
  if 127 < c.1 then .error (.nonAscii c.2)
  else
    match digitValue? c.1 with
    | some d => .ok d
    | none => .error (.badCharacter c.1 c.2)

/-- The bytes written by a list of digits, most significant first. -/
def ofDigits (ds : List Nat) : Bytes :=
  let zeros := (ds.takeWhile (· == 0)).length
  let number := Positional.value 58 ds.reverse
  List.replicate zeros 0 ++ ((Positional.digits 256 number).map UInt8.ofNat).reverse

def decodeUtf8 (text : Bytes) : Except Base58Error Bytes :=
  (text.zipIdx.mapM digitAt).map ofDigits

/-- Reads a text; the first byte outside the alphabet is an error. -/
def decode (text : String) : Except Base58Error Bytes := decodeUtf8 (Text.utf8 text.toList)

end Base58

end UtxoSpend
