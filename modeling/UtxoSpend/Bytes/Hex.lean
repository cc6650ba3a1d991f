import UtxoSpend.Bytes.Basic
import UtxoSpend.Text.Bytes

/-!
# Hexadecimal text

Two digits a byte, written in lowercase and read in either case. Reading works on the UTF-8 form of
the text, so positions in errors count bytes.
-/

namespace UtxoSpend

inductive HexError
  | oddLength
  | badDigit (byte : UInt8) (position : Nat)
  deriving DecidableEq

namespace HexError

def message : HexError → String
  | oddLength => "Odd number of digits"
  | badDigit byte position => s!"Invalid character {Text.quotedByte byte} at position {position}"

end HexError

namespace Hex

def byteDigits (b : UInt8) : List Char :=
  [Text.hexDigit (b.toNat / 16), Text.hexDigit (b.toNat % 16)]

def digits (bs : Bytes) : List Char := bs.flatMap byteDigits

/-- A byte string as lowercase text. -/
def encode (bs : Bytes) : String := String.ofList (digits bs)

/-- The value of an ASCII digit of either case. -/
def digitValue? (c : UInt8) : Option Nat :=
  let n := c.toNat
  if 0x30 ≤ n ∧ n ≤ 0x39 then some (n - 0x30)
  else if 0x61 ≤ n ∧ n ≤ 0x66 then some (n - 0x61 + 10)
  else if 0x41 ≤ n ∧ n ≤ 0x46 then some (n - 0x41 + 10)
  else none

def digitAt (position : Nat) (c : UInt8) : Except HexError Nat :=
  match digitValue? c with
  | some v => .ok v
  | none => .error (.badDigit c position)

/-- Reads digits in pairs, the first at `position`, after the bytes of `acc` (last one first). -/
def decodeFrom (position : Nat) (acc : Bytes) : Bytes → Except HexError Bytes
  | hi :: lo :: rest =>
    match digitAt position hi, digitAt (position + 1) lo with
    | .error e, _ => .error e
    | .ok _, .error e => .error e
    | .ok h, .ok l => decodeFrom (position + 2) (UInt8.ofNat (16 * h + l) :: acc) rest
  | _ => .ok acc.reverse

def decodeUtf8 (text : Bytes) : Except HexError Bytes :=
  if text.length % 2 = 1 then .error .oddLength else decodeFrom 0 [] text

def decodeChars (cs : List Char) : Except HexError Bytes := decodeUtf8 (Text.utf8 cs)

def decode (text : String) : Except HexError Bytes := decodeChars text.toList

end Hex

end UtxoSpend
