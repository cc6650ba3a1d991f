import UtxoSpend.Bytes.Positional
import UtxoSpend.Machine.Failure

/-!
# Script numbers

A number on the stack is a magnitude, least significant byte first, with the sign in the highest
bit of the last byte. The shortest form of zero is the empty string. Arithmetic is done in 64 bits;
an operand is limited in length when it is read, a result is not limited when it is pushed.
-/

namespace UtxoSpend

/-- How numbers are read: at most `maxLength` bytes, and perhaps only in their shortest form. -/
structure NumberRule where
  maxLength : Nat
  minimal : Bool
  deriving DecidableEq

namespace Number

def signBit : UInt8 := 0x80

/-- The shortest form of a number. -/
def encode (n : Int64) : Bytes :=
  let magnitude := (Positional.digits 256 n.toInt.natAbs).map UInt8.ofNat
  match magnitude.getLast? with
  | none => []
  | some last =>
    if last &&& signBit ≠ 0 then magnitude ++ [if n < 0 then signBit else 0]
    else if n < 0 then magnitude.dropLast ++ [last ||| signBit]
    else magnitude

/-- The bits of `bs`, the first byte at byte position `i`; positions wrap at eight. -/
def bitsFrom (i : Nat) : Bytes → Int64
  | [] => 0
  | b :: r => (Int64.ofNat b.toNat <<< Int64.ofNat (8 * i)) ||| bitsFrom (i + 1) r

def signMask (length : Nat) : Int64 := 0x80 <<< Int64.ofNat (8 * (length - 1))

def value (item : Bytes) : Int64 :=
  match item.getLast? with
  | none => 0
  | some last =>
    let bits := bitsFrom 0 item
    if last &&& signBit ≠ 0 then -(bits &&& ~~~signMask item.length) else bits

/-- Whether a number is in its shortest form: its last byte is not just a sign, unless the byte
before needs its highest bit. -/
def isMinimal (item : Bytes) : Bool :=
  match item.reverse with
  | [] => true
  | [last] => last &&& 0x7f != 0
  | last :: before :: _ => last &&& 0x7f != 0 || before &&& signBit != 0

def checkMinimal (item : Bytes) : Except Failure Unit :=
  if isMinimal item then .ok () else .error (.paddedNumber item)

def decode (rule : NumberRule) (item : Bytes) : Except Failure Int64 :=
  if rule.maxLength < item.length then .error (.numberTooBig item rule.maxLength)
  else if rule.minimal && !isMinimal item then .error (.paddedNumber item)
  else .ok (value item)

/-- The number as far as 32 bits reach. -/
def clamp32 (n : Int64) : Int := max (-0x80000000) (min 0x7fffffff n.toInt)

end Number

namespace Truth

/-- An item is true if any bit but a sign in its last byte is set. -/
def holds (item : Bytes) : Bool :=
  match item.reverse with
  | [] => false
  | last :: before => before.any (· != 0) || last &&& 0x7f != 0

def encode (b : Bool) : Bytes := if b then [1] else []

end Truth

namespace UnaryOp

def apply : UnaryOp → Int64 → Int64
  | increment, n => n + 1
  | decrement, n => n - 1
  | negate, n => -n
  | absolute, n => n.abs
  | isZero, n => if n = 0 then 1 else 0
  | isNonzero, n => if n = 0 then 0 else 1

end UnaryOp

namespace BinaryOp

/-- The right operand is the one that was on top. -/
def apply : BinaryOp → Int64 → Int64 → Int64
  | add, a, b => a + b
  | sub, a, b => a - b
  | boolAnd, a, b => if a ≠ 0 ∧ b ≠ 0 then 1 else 0
  | boolOr, a, b => if a ≠ 0 ∨ b ≠ 0 then 1 else 0
  | equal, a, b => if a = b then 1 else 0
  | notEqual, a, b => if a = b then 0 else 1
  | less, a, b => if a < b then 1 else 0
  | greater, a, b => if b < a then 1 else 0
  | lessOrEqual, a, b => if a ≤ b then 1 else 0
  | greaterOrEqual, a, b => if b ≤ a then 1 else 0
  | min, a, b => if a ≤ b then a else b
  | max, a, b => if a ≤ b then b else a

end BinaryOp

end UtxoSpend
