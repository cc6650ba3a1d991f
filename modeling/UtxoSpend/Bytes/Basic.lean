/-!
# Byte strings and the numbers they denote

Byte strings are lists, so that codecs are written and reasoned about as list functions. A byte
string denotes a number in base 256, least or most significant byte first; `toLE` and `toBE` write a
number in a fixed number of bytes.
-/

namespace UtxoSpend

abbrev Bytes := List UInt8

namespace Bytes

/-- The number denoted with the least significant byte first. -/
def leNat : Bytes → Nat
  | [] => 0
  | b :: r => b.toNat + 256 * leNat r

def beNat (bs : Bytes) : Nat :=
  bs.foldl (fun n b => 256 * n + b.toNat) 0

/-- The low `width` bytes of a number, least significant first. -/
def toLE : Nat → Nat → Bytes
  | 0, _ => []
  | width + 1, n => UInt8.ofNat (n % 256) :: toLE width (n / 256)

def toBE (width n : Nat) : Bytes := (toLE width n).reverse

@[simp] theorem leNat_nil : leNat [] = 0 := rfl

@[simp] theorem leNat_cons (b : UInt8) (r : Bytes) : leNat (b :: r) = b.toNat + 256 * leNat r := rfl

@[simp] theorem length_toLE (width n : Nat) : (toLE width n).length = width := by
  induction width generalizing n with
  | zero => rfl
  | succ width ih => simp [toLE, ih]

@[simp] theorem length_toBE (width n : Nat) : (toBE width n).length = width := by
  simp [toBE]

theorem toLE_leNat (bs : Bytes) : toLE bs.length (leNat bs) = bs := by
  induction bs with
  | nil => rfl
  | cons b r ih =>
    have hb := b.toNat_lt
    have hmod : (b.toNat + 256 * leNat r) % 256 = b.toNat := by omega
    have hdiv : (b.toNat + 256 * leNat r) / 256 = leNat r := by omega
    rw [List.length_cons, leNat_cons, toLE, hmod, hdiv, ih]
    simp

/-- The part of `bs` from its first byte other than zero. -/
def dropZeros (bs : Bytes) : Bytes := bs.dropWhile (· == 0)

/-- `bs` extended in front with zero bytes to `width`; longer strings are unchanged. -/
def padLeft (width : Nat) (bs : Bytes) : Bytes := List.replicate (width - bs.length) 0 ++ bs

end Bytes

end UtxoSpend
