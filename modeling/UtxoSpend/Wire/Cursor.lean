import UtxoSpend.DecodeError
import UtxoSpend.Wire.CompactSize
import UtxoSpend.Bytes.ByteVector

/-!
# Reading wire data

A cursor stands somewhere in a byte string. A read that fails also has a cursor as its result: a
read of fixed width has not moved it, while a compact size may fail after its marker was read.
-/

namespace UtxoSpend

/-- A place in a byte string: the bytes passed so far are counted, the others are at hand. -/
structure Cursor where
  position : Nat
  rest : Bytes
  deriving DecidableEq

/-- A read: a value or an error, and the cursor it leaves. -/
abbrev Read := EStateM DecodeError Cursor

namespace Cursor

def start (bs : Bytes) : Cursor := ⟨0, bs⟩

def peek? (c : Cursor) : Option UInt8 := c.rest.head?

def remaining (c : Cursor) : Nat := c.rest.length

end Cursor

namespace Read

def bytes (n : Nat) : Read Bytes := fun c =>
  let taken := c.rest.take n
  if taken.length = n then .ok taken ⟨c.position + n, c.rest.drop n⟩
  else .error .unexpectedEnd c

def vector (n : Nat) : Read (ByteVector n) := fun c =>
  let taken := c.rest.take n
  if h : taken.length = n then .ok ⟨taken, h⟩ ⟨c.position + n, c.rest.drop n⟩
  else .error .unexpectedEnd c

def u8 : Read UInt8 := do
  return UInt8.ofNat (Bytes.leNat (← bytes 1))

def u16 : Read UInt16 := do
  return UInt16.ofNat (Bytes.leNat (← bytes 2))

def u32 : Read UInt32 := do
  return UInt32.ofNat (Bytes.leNat (← bytes 4))

def u64 : Read UInt64 := do
  return UInt64.ofNat (Bytes.leNat (← bytes 8))

/-- Accepts a value that needs the width it was written in. -/
def atLeast (least v : UInt64) : Read UInt64 :=
  if v < least then throw (.paddedCount v) else pure v

def compactSize : Read UInt64 := do
  let marker ← u8
  if marker = CompactSize.marker64 then
    atLeast 0x100000000 (← u64)
  else if marker = CompactSize.marker32 then
    atLeast 0x10000 (← u32).toUInt64
  else if marker = CompactSize.marker16 then
    atLeast 0xfd (← u16).toUInt64
  else
    return marker.toUInt64

def counted : Read Bytes := do
  let size ← compactSize
  bytes size.toNat

def list {ε α : Type} (read : EStateM ε Cursor α) : Nat → EStateM ε Cursor (List α)
  | 0 => pure []
  | count + 1 => do
    let x ← read
    let xs ← list read count
    return x :: xs

end Read

end UtxoSpend
