import Mathlib
import UtxoSpend.Machine.Number
import UtxoSpend.Proofs.Bytes.Positional

/-!
# What script numbers denote

The bytes of an item are a magnitude in base 256 with a sign in the highest bit, so most integers
are denoted by many items, longer and longer, and zero by items of both signs.  Main statements: of
the items that denote an integer only one could not be shorter, this is the one that the integer is
written as, and the tests for the shortest form and for the truth of an item find out exactly that.
-/

namespace UtxoSpend

/-! ## Sign and magnitude -/

namespace Number

def signWeight (length : Nat) : Nat := 2 ^ (8 * length - 1)

def magnitude (item : Bytes) : Nat := Bytes.leNat item % signWeight item.length

def isNegative (item : Bytes) : Bool := signWeight item.length ≤ Bytes.leNat item

/-- The integer that an item denotes: its bytes are in base 256, the least significant one first,
and the highest bit is the sign. -/
def signMagnitude (item : Bytes) : Int :=
  if isNegative item then -(magnitude item : Int) else magnitude item

theorem signWeight_succ (n : Nat) : signWeight (n + 1) = 128 * 256 ^ n := by
  rw [signWeight, show 8 * (n + 1) - 1 = 7 + 8 * n by omega, Nat.pow_add, Nat.pow_mul]

theorem signWeight_le_pow (n : Nat) : signWeight n ≤ 256 ^ n := by
  rw [show (256 : Nat) = 2 ^ 8 by rfl, ← Nat.pow_mul]
  exact Nat.pow_le_pow_right (by decide) (Nat.sub_le _ _)

theorem signWeight_le {k n : Nat} (h : k ≤ n) : signWeight k ≤ signWeight n :=
  Nat.pow_le_pow_right (by decide) (by omega)

theorem magnitude_lt (item : Bytes) : magnitude item < signWeight item.length :=
  Nat.mod_lt _ (Nat.two_pow_pos _)

theorem magnitude_snoc (init : Bytes) (last : UInt8) :
    magnitude (init ++ [last]) =
      Bytes.leNat init + 256 ^ init.length * (last.toNat % 128) := by
  have hlow := Bytes.leNat_lt init
  have hpos : 0 < 256 ^ init.length := Nat.pow_pos (by decide)
  rw [magnitude, List.length_append, List.length_singleton, signWeight_succ, Bytes.leNat_snoc,
    Nat.mul_comm 128, Nat.mod_mul, Nat.add_mul_mod_self_left, Nat.mod_eq_of_lt hlow,
    Nat.add_mul_div_left _ _ hpos, Nat.div_eq_of_lt hlow, Nat.zero_add]

theorem isNegative_snoc (init : Bytes) (last : UInt8) :
    isNegative (init ++ [last]) = decide (128 ≤ last.toNat) := by
  have hlow := Bytes.leNat_lt init
  have hpos : 0 < 256 ^ init.length := Nat.pow_pos (by decide)
  have hdiv : (Bytes.leNat init + 256 ^ init.length * last.toNat) / 256 ^ init.length =
      last.toNat := by
    rw [Nat.add_mul_div_left _ _ hpos, Nat.div_eq_of_lt hlow, Nat.zero_add]
  rw [isNegative, List.length_append, List.length_singleton, signWeight_succ, Bytes.leNat_snoc,
    decide_eq_decide, ← Nat.le_div_iff_mul_le hpos, hdiv]

theorem leNat_eq (item : Bytes) :
    Bytes.leNat item =
      magnitude item + if isNegative item then signWeight item.length else 0 := by
  cases item using List.reverseRecOn with
  | nil => rfl
  | append_singleton init last =>
      rw [magnitude_snoc, isNegative_snoc, Bytes.leNat_snoc, List.length_append,
        List.length_singleton, signWeight_succ]
      have hlast := last.toNat_lt
      simp only [decide_eq_true_eq]
      split_ifs with hsign
      · rw [show last.toNat = last.toNat % 128 + 128 by omega]
        simp
        ring
      · rw [Nat.mod_eq_of_lt (by omega), Nat.add_zero]

theorem natAbs_signMagnitude (item : Bytes) : (signMagnitude item).natAbs = magnitude item := by
  rw [signMagnitude]
  split_ifs
  · rw [Int.natAbs_neg, Int.natAbs_natCast]
  · rw [Int.natAbs_natCast]

/-! ## Shortest items -/

/-- No shorter item can have the magnitude of this one. -/
def IsShortest (item : Bytes) : Prop := ∀ k < item.length, signWeight k ≤ magnitude item

theorem IsShortest.length_le_iff {item : Bytes} (h : IsShortest item) {k : Nat} :
    item.length ≤ k ↔ magnitude item < signWeight k := by
  constructor
  · intro hle
    exact lt_of_lt_of_le (magnitude_lt item) (signWeight_le hle)
  · intro hlt
    by_contra hk
    exact absurd (h k (Nat.lt_of_not_le hk)) (Nat.not_le.mpr hlt)

/-- An integer has only one shortest item. -/
theorem IsShortest.eq_of_signMagnitude_eq {a b : Bytes} (ha : IsShortest a) (hb : IsShortest b)
    (h : signMagnitude a = signMagnitude b) : a = b := by
  have hmagnitude : magnitude a = magnitude b := by
    rw [← natAbs_signMagnitude, h, natAbs_signMagnitude]
  have hlength : a.length = b.length := by
    apply Nat.le_antisymm
    · rw [ha.length_le_iff, hmagnitude]
      exact magnitude_lt b
    · rw [hb.length_le_iff, ← hmagnitude]
      exact magnitude_lt a
  by_cases hempty : a.length = 0
  · have hempty' : b.length = 0 := hlength ▸ hempty
    rw [List.length_eq_zero_iff.mp hempty, List.length_eq_zero_iff.mp hempty']
  · -- There is no negative zero among the shortest items, so the integer determines the sign bit.
    have hone : 1 ≤ magnitude a := ha 0 (Nat.pos_of_ne_zero hempty)
    have hsign : isNegative a = isNegative b := by
      rw [signMagnitude, signMagnitude, ← hmagnitude] at h
      cases hna : isNegative a <;> cases hnb : isNegative b <;> simp [hna, hnb] at h ⊢ <;> omega
    have hvalue : Bytes.leNat a = Bytes.leNat b := by
      rw [leNat_eq a, leNat_eq b, hmagnitude, hsign, hlength]
    rw [← Bytes.toLE_leNat a, ← Bytes.toLE_leNat b, hlength, hvalue]

theorem isShortest_snoc {init : Bytes} {last : UInt8} :
    IsShortest (init ++ [last]) ↔ signWeight init.length ≤ magnitude (init ++ [last]) := by
  constructor
  · intro h
    exact h init.length (by simp)
  · intro h k hk
    rw [List.length_append, List.length_singleton] at hk
    exact le_trans (signWeight_le (Nat.le_of_lt_succ hk)) h

theorem and_signBit_ne_zero_iff (b : UInt8) : b &&& signBit ≠ 0 ↔ 128 ≤ b.toNat :=
  and_highBit_ne_zero_iff b

theorem and_magnitudeBits_ne_zero_iff (b : UInt8) : b &&& 0x7f ≠ 0 ↔ b.toNat % 128 ≠ 0 :=
  forall_byte (p := fun b => b &&& 0x7f ≠ 0 ↔ b.toNat % 128 ≠ 0) (by decide +kernel) b

theorem toNat_or_signBit {b : UInt8} (h : b.toNat < 128) :
    (b ||| signBit).toNat = b.toNat + 128 :=
  forall_byte (p := fun b => b.toNat < 128 → (b ||| signBit).toNat = b.toNat + 128)
    (by decide +kernel) b h

/-- The test on the last two bytes finds out whether an item is the shortest for its magnitude. -/
theorem isMinimal_iff (item : Bytes) : isMinimal item = true ↔ IsShortest item := by
  cases item using List.reverseRecOn with
  | nil => simp [isMinimal, IsShortest]
  | append_singleton init last =>
      rw [isShortest_snoc, magnitude_snoc]
      cases init using List.reverseRecOn with
      | nil =>
          have hbits := and_magnitudeBits_ne_zero_iff last
          simp only [isMinimal, List.nil_append, List.reverse_singleton, bne_iff_ne, hbits,
            signWeight, List.length_nil, Bytes.leNat_nil]
          omega
      | append_singleton init before =>
          have hlow := Bytes.leNat_lt init
          have hbits := and_magnitudeBits_ne_zero_iff last
          have hsign := and_signBit_ne_zero_iff before
          simp only [isMinimal, List.reverse_append, List.reverse_singleton, List.singleton_append,
            Bool.or_eq_true, bne_iff_ne, hbits, hsign, List.length_append, List.length_singleton,
            signWeight_succ, Bytes.leNat_snoc, Nat.pow_succ]
          have hbefore := before.toNat_lt
          generalize 256 ^ init.length = p at hlow ⊢
          generalize Bytes.leNat init = low at hlow ⊢
          constructor
          · rintro (hlast | hhigh)
            · have := Nat.mul_le_mul_left (p * 256) (Nat.pos_of_ne_zero hlast)
              omega
            · have := Nat.mul_le_mul_left p hhigh
              omega
          · intro h
            by_contra hnone
            obtain ⟨hlast, hhigh⟩ := not_or.mp hnone
            have := Nat.mul_le_mul_left p (Nat.le_of_lt_succ (Nat.lt_of_not_le hhigh))
            rw [not_not.mp hlast] at h
            omega

theorem any_ne_zero_iff (bs : Bytes) : bs.any (· != 0) = true ↔ Bytes.leNat bs ≠ 0 := by
  induction bs with
  | nil => simp
  | cons b bs ih =>
      have hb : (b != 0) = true ↔ b.toNat ≠ 0 := by
        rw [bne_iff_ne, ne_eq, ← UInt8.toNat_inj]
        rfl
      rw [List.any_cons, Bool.or_eq_true, ih, hb, Bytes.leNat_cons]
      omega

/-- An item is true unless it denotes zero, with either sign. -/
theorem holds_iff (item : Bytes) : Truth.holds item = true ↔ magnitude item ≠ 0 := by
  cases item using List.reverseRecOn with
  | nil => simp [Truth.holds, magnitude]
  | append_singleton init last =>
      have hpos : 256 ^ init.length ≠ 0 := pow_ne_zero _ (by decide)
      have hinit : init.reverse.any (· != 0) = true ↔ Bytes.leNat init ≠ 0 := by
        rw [List.any_reverse]
        exact any_ne_zero_iff init
      simp only [Truth.holds, List.reverse_append, List.reverse_singleton, List.singleton_append,
        Bool.or_eq_true, hinit, bne_iff_ne, and_magnitudeBits_ne_zero_iff, magnitude_snoc]
      simp only [ne_eq, Nat.add_eq_zero_iff, Nat.mul_eq_zero, hpos, false_or, not_and_or]

/-! ## Written numbers -/

theorem encode_spec (n : Int64) :
    magnitude (encode n) = n.toInt.natAbs ∧ isNegative (encode n) = decide (n.toInt < 0) ∧
      IsShortest (encode n) := by
  by_cases hn : n.toInt.natAbs = 0
  · have hzero : n.toInt = 0 := Int.natAbs_eq_zero.mp hn
    simp [encode, hzero, Positional.digits_zero, magnitude, isNegative, signWeight, IsShortest]
  have hvalue := Bytes.leNat_map_digits n.toInt.natAbs
  have hlength : 256 ^ (Positional.digits 256 n.toInt.natAbs).length ≤ 256 * n.toInt.natAbs :=
    Positional.pow_length_digits_le (by decide) hn
  have hnegative : n < 0 ↔ n.toInt < 0 := Int64.lt_iff_toInt_lt
  rw [← List.length_map (f := UInt8.ofNat)] at hlength
  simp only [encode, hnegative]
  generalize (Positional.digits 256 n.toInt.natAbs).map UInt8.ofNat = bytes at hvalue hlength ⊢
  cases bytes using List.reverseRecOn with
  | nil => exact absurd hvalue.symm hn
  | append_singleton init last =>
      have hlast := last.toNat_lt
      rw [List.length_append, List.length_singleton, Nat.pow_succ'] at hlength
      have hlow : 256 ^ init.length ≤ n.toInt.natAbs :=
        Nat.le_of_mul_le_mul_left hlength (by decide)
      have hshort : signWeight init.length ≤ n.toInt.natAbs :=
        le_trans (signWeight_le_pow _) hlow
      simp only [List.getLast?_concat, List.dropLast_concat, and_signBit_ne_zero_iff]
      by_cases hhigh : 128 ≤ last.toNat
      · -- The highest bit is taken, so the sign gets a byte of its own.
        have hweight : signWeight (init ++ [last]).length ≤ n.toInt.natAbs := by
          rw [List.length_append, List.length_singleton, signWeight_succ, ← hvalue,
            Bytes.leNat_snoc]
          have := Nat.mul_le_mul_left (256 ^ init.length) hhigh
          omega
        rw [if_pos hhigh, isShortest_snoc, magnitude_snoc, isNegative_snoc, hvalue]
        split_ifs with hneg
        · exact ⟨by simp [signBit], by simp [signBit, hneg], by simpa [signBit] using hweight⟩
        · exact ⟨by simp, by simp [hneg], by simpa using hweight⟩
      · rw [Bytes.leNat_snoc] at hvalue
        rw [if_neg hhigh]
        split_ifs with hneg
        · have hsign := toNat_or_signBit (Nat.lt_of_not_le hhigh)
          rw [isShortest_snoc, magnitude_snoc, isNegative_snoc, hsign, Nat.add_mod_right,
            Nat.mod_eq_of_lt (Nat.lt_of_not_le hhigh), hvalue]
          exact ⟨rfl, by simp [hneg], hshort⟩
        · rw [isShortest_snoc, magnitude_snoc, isNegative_snoc,
            Nat.mod_eq_of_lt (Nat.lt_of_not_le hhigh), hvalue]
          exact ⟨rfl, by simp [hneg, hhigh], hshort⟩

theorem signMagnitude_encode (n : Int64) : signMagnitude (encode n) = n.toInt := by
  obtain ⟨hmagnitude, hnegative, -⟩ := encode_spec n
  rw [signMagnitude, hmagnitude, hnegative]
  simp only [decide_eq_true_eq]
  split_ifs <;> omega

theorem isShortest_encode (n : Int64) : IsShortest (encode n) := (encode_spec n).2.2

theorem length_encode_le_iff (n : Int64) (k : Nat) :
    (encode n).length ≤ k ↔ n.toInt.natAbs < signWeight k := by
  rw [(isShortest_encode n).length_le_iff, (encode_spec n).1]

end Number

end UtxoSpend
