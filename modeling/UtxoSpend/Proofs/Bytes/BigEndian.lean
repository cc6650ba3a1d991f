import Mathlib
import UtxoSpend.Bytes.ByteVector
import UtxoSpend.Bytes.Lemmas

/-!
# Numbers with the most significant byte first

Big-endian strings are little-endian ones in reverse, so their laws come from there.  Leading zeros
carry no value: cutting them off and filling up to the old width again changes nothing.
-/

namespace UtxoSpend.Bytes

theorem beNat_eq_leNat_reverse (bs : Bytes) : beNat bs = leNat bs.reverse := by
  rw [beNat, ← List.foldr_reverse]
  generalize bs.reverse = rs
  induction rs with
  | nil => rfl
  | cons b r ih => rw [List.foldr_cons, ih, leNat_cons, Nat.add_comm]

theorem beNat_toBE_of_lt {width n : Nat} (h : n < 256 ^ width) : beNat (toBE width n) = n := by
  rw [beNat_eq_leNat_reverse, toBE, List.reverse_reverse, leNat_toLE_of_lt h]

theorem toBE_beNat (bs : Bytes) : toBE bs.length (beNat bs) = bs := by
  rw [beNat_eq_leNat_reverse, toBE, ← List.length_reverse, toLE_leNat, List.reverse_reverse]

theorem beNat_lt (bs : Bytes) : beNat bs < 256 ^ bs.length := by
  rw [beNat_eq_leNat_reverse, ← List.length_reverse]
  exact leNat_lt _

theorem beNat_cons (b : UInt8) (r : Bytes) :
    beNat (b :: r) = b.toNat * 256 ^ r.length + beNat r := by
  rw [beNat_eq_leNat_reverse, List.reverse_cons, leNat_snoc, beNat_eq_leNat_reverse r,
    List.length_reverse, Nat.mul_comm, Nat.add_comm]

theorem dropZeros_cons_of_ne {b : UInt8} (h : b ≠ 0) (r : Bytes) : dropZeros (b :: r) = b :: r := by
  rw [dropZeros, List.dropWhile_cons_of_neg]
  simpa using h

theorem dropZeros_zero_cons (r : Bytes) : dropZeros (0 :: r) = dropZeros r := rfl

theorem beNat_dropZeros (bs : Bytes) : beNat (dropZeros bs) = beNat bs := by
  induction bs with
  | nil => rfl
  | cons b r ih =>
      by_cases hb : b = 0
      · rw [hb, dropZeros_zero_cons, ih]
        rfl
      · rw [dropZeros_cons_of_ne hb]

theorem length_dropZeros_le (bs : Bytes) : (dropZeros bs).length ≤ bs.length :=
  (List.dropWhile_sublist _).length_le

theorem head_ne_zero_of_dropZeros {bs r : Bytes} {b : UInt8} (h : dropZeros bs = b :: r) :
    b ≠ 0 := by
  induction bs with
  | nil => cases h
  | cons c bs ih =>
      by_cases hc : c = 0
      · subst hc
        exact ih h
      · rw [dropZeros_cons_of_ne hc] at h
        cases h
        exact hc

theorem padLeft_dropZeros (bs : Bytes) : padLeft bs.length (dropZeros bs) = bs := by
  induction bs with
  | nil => rfl
  | cons b r ih =>
      by_cases hb : b = 0
      · subst hb
        have hle := length_dropZeros_le r
        rw [dropZeros_zero_cons, padLeft, List.length_cons, Nat.succ_sub hle,
          List.replicate_succ, List.cons_append]
        exact congrArg (List.cons 0) ih
      · rw [dropZeros_cons_of_ne hb, padLeft, Nat.sub_self]
        rfl

end UtxoSpend.Bytes

namespace UtxoSpend.ByteVector

variable {n : Nat}

theorem toNat_ofNat_of_lt {value : Nat} (h : value < 256 ^ n) : (ofNat n value).toNat = value :=
  Bytes.beNat_toBE_of_lt h

theorem toNat_lt (v : ByteVector n) : v.toNat < 256 ^ n := by
  have hlt := Bytes.beNat_lt v.bytes
  rwa [v.length_eq] at hlt

theorem ofNat_toNat (v : ByteVector n) : ofNat n v.toNat = v := by
  ext1
  have hbytes := Bytes.toBE_beNat v.bytes
  rwa [v.length_eq] at hbytes

end UtxoSpend.ByteVector
