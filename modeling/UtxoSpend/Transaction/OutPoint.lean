import UtxoSpend.Bytes.ByteVector
import UtxoSpend.Bytes.Hex
import UtxoSpend.Wire.CompactSize

/-!
# References to outputs

A transaction id is kept in the order in which it is printed; on the wire its bytes stand in the
opposite order.
-/

namespace UtxoSpend

/-- A transaction id, in printing order. -/
abbrev TxId := ByteVector 32

structure OutPoint where
  txId : TxId
  index : UInt32
  deriving DecidableEq

namespace OutPoint

def coinbaseIndex : UInt32 := 0xffffffff

/-- The reference of an input that creates coins and spends nothing. -/
def coinbase : OutPoint := ⟨.replicate 32 0, coinbaseIndex⟩

def isCoinbase (p : OutPoint) : Bool := p == coinbase

def encode (p : OutPoint) : Bytes := p.txId.reverse.bytes ++ Wire.u32 p.index

def toText (p : OutPoint) : String := s!"{Hex.encode p.txId.bytes}:{p.index.toNat}"

end OutPoint

end UtxoSpend
