import UtxoSpend.Bytes.Basic

/-!
# Iterated block hashing

The three hash functions of this library share one frame: the message is filled up to whole blocks
of 64 bytes, the last eight of which hold its length in bits, and the blocks are absorbed in order
by a compression function. They differ in the compression and in the byte order of words.
-/

namespace UtxoSpend.Hash

def blockSize : Nat := 64

/-- The message, a set bit, zeros and the length in bits, in whole blocks. -/
def pad (writeLength : Nat → Bytes) (message : Bytes) : Bytes :=
  message ++ 0x80 :: List.replicate ((119 - message.length % 64) % 64) 0
    ++ writeLength (8 * message.length)

def absorb {State : Type} (compress : State → Bytes → State) : Nat → State → Bytes → State
  | 0, s, _ => s
  | count + 1, s, bs => absorb compress count (compress s (bs.take blockSize)) (bs.drop blockSize)

def absorbAll {State : Type} (compress : State → Bytes → State) (s : State) (bs : Bytes) : State :=
  absorb compress (bs.length / blockSize) s bs

def wordsBE : Bytes → List UInt32
  | a :: b :: c :: d :: r =>
    (a.toUInt32 <<< 24 ||| b.toUInt32 <<< 16 ||| c.toUInt32 <<< 8 ||| d.toUInt32) :: wordsBE r
  | _ => []

def wordsLE : Bytes → List UInt32
  | a :: b :: c :: d :: r =>
    (d.toUInt32 <<< 24 ||| c.toUInt32 <<< 16 ||| b.toUInt32 <<< 8 ||| a.toUInt32) :: wordsLE r
  | _ => []

def bytesBE (words : List UInt32) : Bytes := words.flatMap fun w => Bytes.toBE 4 w.toNat

def bytesLE (words : List UInt32) : Bytes := words.flatMap fun w => Bytes.toLE 4 w.toNat

def rotateLeft (x n : UInt32) : UInt32 := x <<< n ||| x >>> (32 - n)

def rotateRight (x n : UInt32) : UInt32 := x >>> n ||| x <<< (32 - n)

theorem length_bytesBE (words : List UInt32) : (bytesBE words).length = 4 * words.length := by
  induction words with
  | nil => rfl
  | cons w r ih =>
    rw [bytesBE, List.flatMap_cons, List.length_append, Bytes.length_toBE, List.length_cons]
    rw [bytesBE] at ih
    omega

theorem length_bytesLE (words : List UInt32) : (bytesLE words).length = 4 * words.length := by
  induction words with
  | nil => rfl
  | cons w r ih =>
    rw [bytesLE, List.flatMap_cons, List.length_append, Bytes.length_toLE, List.length_cons]
    rw [bytesLE] at ih
    omega

end UtxoSpend.Hash
