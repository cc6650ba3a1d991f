import Mathlib
import UtxoSpend.Bytes.Lemmas
import UtxoSpend.Bytes.Positional

/-!
# Digits and the numbers they stand for

Zeros in front are no part of a number, so they are kept apart when digits are written in
another base.  Main statement: writing digits in another base and back gives the same digits.
-/

namespace UtxoSpend

namespace Positional

theorem digits_eq {base : Nat} (hbase : 2 ≤ base) (n : Nat) :
    digits base n = Nat.digits base n := by
  induction n using Nat.strong_induction_on with
  | _ n ih =>
    by_cases hn : n = 0
    · rw [hn, digits_zero, Nat.digits_zero]
    · rw [digits_of_pos hbase hn, ih _ (Nat.div_lt_self (Nat.pos_of_ne_zero hn) hbase),
        Nat.digits_def' hbase (Nat.pos_of_ne_zero hn)]

theorem value_eq (base : Nat) (ds : List Nat) : value base ds = Nat.ofDigits base ds := by
  induction ds with
  | nil => rfl
  | cons d ds ih => rw [value, ih, Nat.ofDigits_cons]

theorem pow_length_digits_le {base n : Nat} (hbase : 2 ≤ base) (hn : n ≠ 0) :
    base ^ (digits base n).length ≤ base * n := by
  rw [digits_eq hbase]
  exact Nat.base_pow_length_digits_le base n hbase hn

theorem head?_reverse_digits {base : Nat} (hbase : 2 ≤ base) (n : Nat) :
    (digits base n).reverse.head? ≠ some 0 := by
  rw [digits_eq hbase, List.head?_reverse]
  by_cases hn : n = 0
  · rw [hn, Nat.digits_zero]
    simp
  · rw [List.getLast?_eq_getLast_of_ne_nil (Nat.digits_ne_nil_iff_ne_zero.mpr hn)]
    exact fun h => Nat.getLast_digit_ne_zero base hn (Option.some.inj h)

/-- Digits, most significant first, without a zero in front are those of their value. -/
theorem reverse_digits_value {base : Nat} (hbase : 2 ≤ base) {ds : List Nat}
    (h : ∀ d ∈ ds, d < base) (hhead : ds.head? ≠ some 0) :
    (digits base (value base ds.reverse)).reverse = ds := by
  rw [digits_eq hbase, value_eq, Nat.digits_ofDigits base hbase, List.reverse_reverse]
  · simpa using h
  · intro hne hlast
    rw [List.getLast_reverse] at hlast
    rw [List.head?_eq_some_head (by simpa using hne), hlast] at hhead
    exact hhead rfl

/-! ## The same number in another base -/

/-- The same number in another base, most significant digit first, behind as many zeros. -/
def rebase (base base' : Nat) (ds : List Nat) : List Nat :=
  List.replicate (ds.takeWhile (· == 0)).length 0
    ++ (digits base' (value base ds.reverse)).reverse

theorem exists_zeros (ds : List Nat) :
    ∃ z rest, ds = List.replicate z 0 ++ rest ∧ rest.head? ≠ some 0 := by
  induction ds with
  | nil => exact ⟨0, [], rfl, by simp⟩
  | cons d ds ih =>
      by_cases hd : d = 0
      · obtain ⟨z, rest, hds, hrest⟩ := ih
        exact ⟨z + 1, rest, by rw [hd, hds, List.replicate_succ, List.cons_append], hrest⟩
      · exact ⟨0, d :: ds, rfl, by simpa using hd⟩

theorem takeWhile_zeros {z : Nat} {ds : List Nat} (h : ds.head? ≠ some 0) :
    (List.replicate z 0 ++ ds).takeWhile (· == 0) = List.replicate z 0 := by
  rw [List.takeWhile_append_of_pos (by simp)]
  cases ds with
  | nil => simp
  | cons d ds => simpa using h

theorem rebase_zeros {base base' z : Nat} {ds : List Nat} (h : ds.head? ≠ some 0) :
    rebase base base' (List.replicate z 0 ++ ds) =
      List.replicate z 0 ++ (digits base' (value base ds.reverse)).reverse := by
  rw [rebase, takeWhile_zeros h, List.length_replicate, List.reverse_append,
    List.reverse_replicate, value_eq base (_ ++ _), Nat.ofDigits_append_replicate_zero, ← value_eq]

theorem lt_of_mem_rebase {base base' : Nat} (hbase' : 2 ≤ base') {ds : List Nat} {d : Nat}
    (h : d ∈ rebase base base' ds) : d < base' := by
  rcases List.mem_append.mp h with hzero | hdigit
  · rw [List.eq_of_mem_replicate hzero]
    omega
  · exact lt_of_mem_digits (List.mem_reverse.mp hdigit)

theorem rebase_rebase {base base' : Nat} (hbase : 2 ≤ base) (hbase' : 2 ≤ base') {ds : List Nat}
    (h : ∀ d ∈ ds, d < base) : rebase base' base (rebase base base' ds) = ds := by
  obtain ⟨z, rest, rfl, hrest⟩ := exists_zeros ds
  have hdigits : ∀ d ∈ rest, d < base := fun d hd => h d (List.mem_append_right _ hd)
  rw [rebase_zeros hrest, rebase_zeros (head?_reverse_digits hbase' _), List.reverse_reverse,
    value_digits hbase', reverse_digits_value hbase hdigits hrest]

end Positional

namespace Bytes

theorem leNat_eq_value (bs : Bytes) : leNat bs = Positional.value 256 (bs.map UInt8.toNat) := by
  induction bs with
  | nil => rfl
  | cons b r ih => rw [leNat_cons, ih, List.map_cons, Positional.value]

theorem map_toNat_map_ofNat {ds : List Nat} (h : ∀ d ∈ ds, d < 256) :
    (ds.map UInt8.ofNat).map UInt8.toNat = ds := by
  rw [List.map_map]
  exact (List.map_congr_left fun d hd => UInt8.toNat_ofNat_of_lt' (h d hd)).trans (List.map_id ds)

theorem map_ofNat_map_toNat (bs : Bytes) : (bs.map UInt8.toNat).map UInt8.ofNat = bs := by
  rw [List.map_map]
  exact (List.map_congr_left fun b _ => UInt8.ofNat_toNat).trans (List.map_id bs)

theorem leNat_map_digits (n : Nat) :
    leNat ((Positional.digits 256 n).map UInt8.ofNat) = n := by
  rw [leNat_eq_value, map_toNat_map_ofNat fun d hd => Positional.lt_of_mem_digits hd,
    Positional.value_digits (by decide)]

end Bytes

end UtxoSpend
