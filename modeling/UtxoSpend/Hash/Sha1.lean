import UtxoSpend.Hash.Blocks
import UtxoSpend.Bytes.ByteVector

/-!
# SHA-1

Used by one script opcode only; nothing here relies on its strength.
-/

namespace UtxoSpend.Hash.Sha1

structure Registers where
  a : UInt32
  b : UInt32
  c : UInt32
  d : UInt32
  e : UInt32

namespace Registers

def initial : Registers := ⟨0x67452301, 0xefcdab89, 0x98badcfe, 0x10325476, 0xc3d2e1f0⟩

def add (x y : Registers) : Registers := ⟨x.a + y.a, x.b + y.b, x.c + y.c, x.d + y.d, x.e + y.e⟩

def words (x : Registers) : List UInt32 := [x.a, x.b, x.c, x.d, x.e]

end Registers

/-- Adds `count` words to the schedule, which is kept latest first. -/
def extend : Nat → List UInt32 → List UInt32
  | 0, latest => latest.reverse
  | count + 1, latest =>
    let w := latest.getD 2 0 ^^^ latest.getD 7 0 ^^^ latest.getD 13 0 ^^^ latest.getD 15 0
    extend count (rotateLeft w 1 :: latest)

/-- The mixing function and constant of a round: four stages of twenty rounds. -/
def mix (t : Nat) (b c d : UInt32) : UInt32 :=
  if t < 20 then ((b &&& c) ||| (~~~b &&& d)) + 0x5a827999
  else if t < 40 then (b ^^^ c ^^^ d) + 0x6ed9eba1
  else if t < 60 then ((b &&& c) ||| (b &&& d) ||| (c &&& d)) + 0x8f1bbcdc
  else (b ^^^ c ^^^ d) + 0xca62c1d6

def round (r : Registers) (wt : UInt32 × Nat) : Registers :=
  ⟨rotateLeft r.a 5 + mix wt.2 r.b r.c r.d + r.e + wt.1, r.a, rotateLeft r.b 30, r.c, r.d⟩

def compress (s : Registers) (block : Bytes) : Registers :=
  ((extend 64 (wordsBE block).reverse).zipIdx.foldl round s).add s

def hash (message : Bytes) : ByteVector 20 :=
  let padded := pad (Bytes.toBE 8) message
  ⟨bytesBE (absorbAll compress .initial padded).words, by rw [length_bytesBE]; rfl⟩

end UtxoSpend.Hash.Sha1
