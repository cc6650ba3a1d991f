import UtxoSpend.Bytes.Basic

/-!
# Byte strings of a fixed length

Transaction ids, key hashes and signature scalars have a length that never changes, so the length is
part of their type.
-/

namespace UtxoSpend

/-- A byte string of exactly `n` bytes. -/
structure ByteVector (n : Nat) where
  bytes : Bytes
  length_eq : bytes.length = n
  deriving DecidableEq

namespace ByteVector

variable {n : Nat}

def ofBytes? (n : Nat) (bs : Bytes) : Option (ByteVector n) :=
  if h : bs.length = n then some ⟨bs, h⟩ else none

def replicate (n : Nat) (b : UInt8) : ByteVector n :=
  ⟨List.replicate n b, List.length_replicate⟩

def reverse (v : ByteVector n) : ByteVector n :=
  ⟨v.bytes.reverse, by rw [List.length_reverse, v.length_eq]⟩

def toNat (v : ByteVector n) : Nat := Bytes.beNat v.bytes

/-- The low `n` bytes of a number, most significant first. -/
def ofNat (n value : Nat) : ByteVector n := ⟨Bytes.toBE n value, Bytes.length_toBE n value⟩

@[ext] theorem ext {v w : ByteVector n} (h : v.bytes = w.bytes) : v = w := by
  cases v
  cases w
  cases h
  rfl

@[simp] theorem bytes_reverse (v : ByteVector n) : v.reverse.bytes = v.bytes.reverse := rfl

@[simp] theorem reverse_reverse (v : ByteVector n) : v.reverse.reverse = v := by
  ext1
  simp

@[simp] theorem length_bytes (v : ByteVector n) : v.bytes.length = n := v.length_eq

end ByteVector

end UtxoSpend
