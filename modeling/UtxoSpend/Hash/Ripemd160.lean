import UtxoSpend.Hash.Blocks
import UtxoSpend.Bytes.ByteVector

/-!
# RIPEMD-160

Two lines of eighty rounds read the same block in different orders and are added at the end.
-/

namespace UtxoSpend.Hash.Ripemd160

structure Registers where
  a : UInt32
  b : UInt32
  c : UInt32
  d : UInt32
  e : UInt32

namespace Registers

def initial : Registers := ⟨0x67452301, 0xefcdab89, 0x98badcfe, 0x10325476, 0xc3d2e1f0⟩

def words (x : Registers) : List UInt32 := [x.a, x.b, x.c, x.d, x.e]

end Registers

/-- A line of rounds: which word each round reads, how far it rotates, the order of the mixing
functions, and one constant for every sixteen rounds. -/
structure Line where
  order : List Nat
  shifts : List UInt32
  mixes : List Nat
  constants : List UInt32

def leftLine : Line where
  order :=
    [0, 1, 2, 3, 4, 5, 6, 7, 8, 9, 10, 11, 12, 13, 14, 15,
     7, 4, 13, 1, 10, 6, 15, 3, 12, 0, 9, 5, 2, 14, 11, 8,
     3, 10, 14, 4, 9, 15, 8, 1, 2, 7, 0, 6, 13, 11, 5, 12,
     1, 9, 11, 10, 0, 8, 12, 4, 13, 3, 7, 15, 14, 5, 6, 2,
     4, 0, 5, 9, 7, 12, 2, 10, 14, 1, 3, 8, 11, 6, 15, 13]
  shifts :=
    [11, 14, 15, 12, 5, 8, 7, 9, 11, 13, 14, 15, 6, 7, 9, 8,
     7, 6, 8, 13, 11, 9, 7, 15, 7, 12, 15, 9, 11, 7, 13, 12,
     11, 13, 6, 7, 14, 9, 13, 15, 14, 8, 13, 6, 5, 12, 7, 5,
     11, 12, 14, 15, 14, 15, 9, 8, 9, 14, 5, 6, 8, 6, 5, 12,
     9, 15, 5, 11, 6, 8, 13, 12, 5, 12, 13, 14, 11, 8, 5, 6]
  mixes := [0, 1, 2, 3, 4]
  constants := [0x00000000, 0x5a827999, 0x6ed9eba1, 0x8f1bbcdc, 0xa953fd4e]

def rightLine : Line where
  order :=
    [5, 14, 7, 0, 9, 2, 11, 4, 13, 6, 15, 8, 1, 10, 3, 12,
     6, 11, 3, 7, 0, 13, 5, 10, 14, 15, 8, 12, 4, 9, 1, 2,
     15, 5, 1, 3, 7, 14, 6, 9, 11, 8, 12, 2, 10, 0, 4, 13,
     8, 6, 4, 1, 3, 11, 15, 0, 5, 12, 2, 13, 9, 7, 10, 14,
     12, 15, 10, 4, 1, 5, 8, 7, 6, 2, 13, 14, 0, 3, 9, 11]
  shifts :=
    [8, 9, 9, 11, 13, 15, 15, 5, 7, 7, 8, 11, 14, 14, 12, 6,
     9, 13, 15, 7, 12, 8, 9, 11, 7, 7, 12, 7, 6, 15, 13, 11,
     9, 7, 15, 11, 8, 6, 6, 14, 12, 13, 5, 14, 13, 13, 7, 5,
     15, 5, 8, 11, 14, 14, 6, 14, 6, 9, 12, 9, 12, 5, 15, 8,
     8, 5, 12, 9, 12, 5, 14, 6, 8, 13, 6, 5, 15, 13, 11, 11]
  mixes := [4, 3, 2, 1, 0]
  constants := [0x50a28be6, 0x5c4dd124, 0x6d703ef3, 0x7a6d76e9, 0x00000000]

def mix (kind : Nat) (x y z : UInt32) : UInt32 :=
  match kind with
  | 0 => x ^^^ y ^^^ z
  | 1 => (x &&& y) ||| (~~~x &&& z)
  | 2 => (x ||| ~~~y) ^^^ z
  | 3 => (x &&& z) ||| (y &&& ~~~z)
  | _ => x ^^^ (y ||| ~~~z)

def round (line : Line) (block : List UInt32) (r : Registers) (step : (Nat × UInt32) × Nat) :
    Registers :=
  let stage := step.2 / 16
  let t := r.a + mix (line.mixes.getD stage 0) r.b r.c r.d + block.getD step.1.1 0
    + line.constants.getD stage 0
  ⟨r.e, rotateLeft t step.1.2 + r.e, r.b, rotateLeft r.c 10, r.d⟩

def runLine (line : Line) (block : List UInt32) (r : Registers) : Registers :=
  (line.order.zip line.shifts).zipIdx.foldl (round line block) r

def compress (s : Registers) (block : Bytes) : Registers :=
  let words := wordsLE block
  let l := runLine leftLine words s
  let r := runLine rightLine words s
  ⟨s.b + l.c + r.d, s.c + l.d + r.e, s.d + l.e + r.a, s.e + l.a + r.b, s.a + l.b + r.c⟩

def hash (message : Bytes) : ByteVector 20 :=
  let padded := pad (Bytes.toLE 8) message
  ⟨bytesLE (absorbAll compress .initial padded).words, by rw [length_bytesLE]; rfl⟩

end UtxoSpend.Hash.Ripemd160
