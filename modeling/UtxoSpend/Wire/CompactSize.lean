import UtxoSpend.Bytes.Basic

/-!
# Writing wire data

Integers of fixed width are written least significant byte first. Counts and lengths are written as
a compact size: one byte below `0xfd`, else a marker and two, four or eight bytes, always the
fewest that hold the value.
-/

namespace UtxoSpend

namespace Wire

def u16 (v : UInt16) : Bytes := Bytes.toLE 2 v.toNat

def u32 (v : UInt32) : Bytes := Bytes.toLE 4 v.toNat

def u64 (v : UInt64) : Bytes := Bytes.toLE 8 v.toNat

end Wire

namespace CompactSize

def marker16 : UInt8 := 0xfd

def marker32 : UInt8 := 0xfe

def marker64 : UInt8 := 0xff

def size (v : UInt64) : Nat :=
  if v < 0xfd then 1 else if v ≤ 0xffff then 3 else if v ≤ 0xffffffff then 5 else 9

/-- The written form of `v`. -/
def encode (v : UInt64) : Bytes :=
  if v < 0xfd then [v.toUInt8]
  else if v ≤ 0xffff then marker16 :: Bytes.toLE 2 v.toNat
  else if v ≤ 0xffffffff then marker32 :: Bytes.toLE 4 v.toNat
  else marker64 :: Bytes.toLE 8 v.toNat

def ofLength {α : Type} (xs : List α) : Bytes := encode (UInt64.ofNat xs.length)

end CompactSize

namespace Wire

def counted (bs : Bytes) : Bytes := CompactSize.ofLength bs ++ bs

end Wire

end UtxoSpend
