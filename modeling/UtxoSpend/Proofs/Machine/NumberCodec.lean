import Mathlib
import UtxoSpend.Machine.Stack
import UtxoSpend.Proofs.Effect
import UtxoSpend.Proofs.Machine.SignMagnitude

/-!
# Reading script numbers

The machine shifts the bytes of an item into a word, clears the sign bit and negates the rest.  As
long as eight bytes are enough, this is the integer that the item denotes.  Main statement: script
numbers are a canonical code, and an operand of limited length is refused exactly if its number is
too large for the limit.
-/

namespace UtxoSpend

namespace Number

/-! ## Bits of a word -/

theorem toNat_shiftLeft_ofNat {a i : Nat} (ha : a < 256) (hi : i < 8) :
    (Int64.ofNat a <<< Int64.ofNat (8 * i)).toBitVec.toNat = a <<< (8 * i) := by
  have htable : ∀ i : Fin 8, (Int64.ofNat (8 * i)).toBitVec.smod 64 = BitVec.ofNat 64 (8 * i) := by
    decide +kernel
  have hamount : (Int64.ofNat (8 * i)).toBitVec.smod 64 = BitVec.ofNat 64 (8 * i) :=
    htable ⟨i, hi⟩
  have hlt : a <<< (8 * i) < 2 ^ 64 := by
    rw [Nat.shiftLeft_eq]
    calc a * 2 ^ (8 * i) < 2 ^ 8 * 2 ^ (8 * i) := Nat.mul_lt_mul_of_pos_right ha (Nat.two_pow_pos _)
      _ = 2 ^ (8 * (i + 1)) := by rw [← Nat.pow_add, Nat.mul_add, Nat.add_comm]
      _ ≤ 2 ^ 64 := Nat.pow_le_pow_right (by decide) (by omega)
  rw [Int64.toBitVec_shiftLeft, hamount, Int64.toBitVec_ofNat', BitVec.shiftLeft_eq',
    BitVec.toNat_shiftLeft, BitVec.toNat_ofNat, BitVec.toNat_ofNat,
    Nat.mod_eq_of_lt (show a < 2 ^ 64 by omega), Nat.mod_eq_of_lt (show 8 * i < 2 ^ 64 by omega),
    Nat.mod_eq_of_lt hlt]

theorem toNat_bitsFrom {i : Nat} {bs : Bytes} (h : i + bs.length ≤ 8) :
    (bitsFrom i bs).toBitVec.toNat = Bytes.leNat bs <<< (8 * i) := by
  induction bs generalizing i with
  | nil => simp [bitsFrom]
  | cons b bs ih =>
      rw [List.length_cons] at h
      have hb := b.toNat_lt
      have hlow : b.toNat <<< (8 * i) < 2 ^ (8 * (i + 1)) := by
        rw [Nat.shiftLeft_eq, Nat.mul_add, Nat.pow_add, Nat.mul_comm]
        exact Nat.mul_lt_mul_of_pos_left hb (Nat.two_pow_pos _)
      rw [bitsFrom, Int64.toBitVec_or, BitVec.toNat_or, toNat_shiftLeft_ofNat hb (by omega),
        ih (by omega), Nat.or_comm, ← Nat.shiftLeft_add_eq_or_of_lt hlow, Bytes.leNat_cons]
      simp only [Nat.shiftLeft_eq, Nat.mul_add, Nat.pow_add]
      ring

theorem toNat_and_not {x m : BitVec 64} {k : Nat} (hm : m.toNat = 2 ^ k)
    (hx : x.toNat < 2 ^ (k + 1)) : (x &&& ~~~m).toNat = x.toNat % 2 ^ k := by
  apply Nat.eq_of_testBit_eq
  intro j
  have hmask : (~~~m).toNat.testBit j = (decide (j < 64) && !decide (k = j)) := by
    rw [BitVec.testBit_toNat, BitVec.getLsbD_not, ← BitVec.testBit_toNat, hm, Nat.testBit_two_pow]
  rw [BitVec.toNat_and, Nat.testBit_and, hmask, Nat.testBit_mod_two_pow]
  rcases Nat.lt_trichotomy j k with hlt | rfl | hgt
  · have hword : k < 64 := by
      have hlt64 := m.isLt
      rw [hm] at hlt64
      exact (Nat.pow_lt_pow_iff_right (by decide)).mp hlt64
    have hj : j < 64 := hlt.trans hword
    simp [hlt, hj, hlt.ne']
  · simp
  · have hclear : x.toNat.testBit j = false :=
      Nat.testBit_lt_two_pow (lt_of_lt_of_le hx (Nat.pow_le_pow_right (by decide) hgt))
    simp [hclear]

theorem toInt_eq_of_toNat {n : Int64} {m : Nat} (h : n.toBitVec.toNat = m) (hm : m < 2 ^ 63) :
    n.toInt = m := by
  rw [Int64.toInt, BitVec.toInt_eq_toNat_of_lt (by omega), h]

theorem toInt_value {item : Bytes} (h : item.length ≤ 8) :
    (value item).toInt = signMagnitude item := by
  have hbits : (bitsFrom 0 item).toBitVec.toNat = Bytes.leNat item := by
    rw [toNat_bitsFrom (by omega), Nat.mul_zero, Nat.shiftLeft_zero]
  have hsmall : magnitude item < 2 ^ 63 := lt_of_lt_of_le (magnitude_lt item) (signWeight_le h)
  cases item using List.reverseRecOn with
  | nil => rfl
  | append_singleton init last =>
      rw [List.length_append, List.length_singleton] at h
      simp only [value, List.getLast?_concat, and_signBit_ne_zero_iff, signMagnitude,
        isNegative_snoc, decide_eq_true_eq]
      split_ifs with hsign
      · have hmask : (signMask (init ++ [last]).length).toBitVec.toNat =
            2 ^ (8 * init.length + 7) := by
          rw [signMask, List.length_append, List.length_singleton, Nat.add_sub_cancel]
          refine (toNat_shiftLeft_ofNat (a := 128) (by decide) h).trans ?_
          rw [Nat.shiftLeft_eq, Nat.pow_add, Nat.mul_comm]
        have hlt : Bytes.leNat (init ++ [last]) < 2 ^ (8 * init.length + 7 + 1) := by
          have hlt := Bytes.leNat_lt (init ++ [last])
          rwa [List.length_append, List.length_singleton, show (256 : Nat) = 2 ^ 8 by rfl,
            ← Nat.pow_mul] at hlt
        have hcleared : (bitsFrom 0 (init ++ [last]) &&&
            ~~~signMask (init ++ [last]).length).toInt = magnitude (init ++ [last]) := by
          refine toInt_eq_of_toNat ?_ hsmall
          rw [Int64.toBitVec_and, Int64.toBitVec_not, toNat_and_not hmask (hbits ▸ hlt), hbits]
          rw [magnitude, List.length_append, List.length_singleton, signWeight,
            show 8 * (init.length + 1) - 1 = 8 * init.length + 7 by omega]
        rw [Int64.toInt_neg, hcleared, Int.bmod_eq_of_le (by omega) (by omega)]
      · refine toInt_eq_of_toNat (hbits.trans ?_) hsmall
        rw [leNat_eq, isNegative_snoc, if_neg (by simpa using hsign), Nat.add_zero]

theorem decode_eq_ok_iff {rule : NumberRule} {item : Bytes} {n : Int64} :
    decode rule item = .ok n ↔
      item.length ≤ rule.maxLength ∧ (rule.minimal = true → IsShortest item) ∧ value item = n := by
  rw [decode, ← isMinimal_iff]
  by_cases hlong : rule.maxLength < item.length
  · simp [hlong]
  · rw [if_neg hlong]
    cases rule.minimal <;> cases isMinimal item <;> simp [Nat.le_of_not_lt hlong]

theorem decode_eq_ok {rule : NumberRule} {item : Bytes} {n : Int64}
    (h : decode rule item = .ok n) : item.length ≤ rule.maxLength ∧ n = value item := by
  obtain ⟨hlength, -, hvalue⟩ := decode_eq_ok_iff.mp h
  exact ⟨hlength, hvalue.symm⟩

theorem decode_encode {rule : NumberRule} (hrule : rule.maxLength ≤ 8) (n : Int64) :
    decode rule (encode n) =
      if n.toInt.natAbs < signWeight rule.maxLength then .ok n
      else .error (.numberTooBig (encode n) rule.maxLength) := by
  have hminimal : isMinimal (encode n) = true := (isMinimal_iff _).mpr (isShortest_encode n)
  rw [decode, hminimal]
  by_cases hshort : (encode n).length ≤ rule.maxLength
  · have hvalue : value (encode n) = n := by
      rw [← Int64.toInt_inj, toInt_value (hshort.trans hrule), signMagnitude_encode]
    rw [if_neg (Nat.not_lt.mpr hshort), if_pos ((length_encode_le_iff n _).mp hshort), hvalue]
    simp
  · rw [if_pos (Nat.lt_of_not_le hshort), if_neg fun h => hshort ((length_encode_le_iff n _).mpr h)]

theorem encode_value_eq_iff {item : Bytes} (h : item.length ≤ 8) :
    encode (value item) = item ↔ IsShortest item := by
  constructor
  · intro heq
    rw [← heq]
    exact isShortest_encode _
  · intro hshortest
    refine (isShortest_encode _).eq_of_signMagnitude_eq hshortest ?_
    rw [signMagnitude_encode, toInt_value h]

end Number

/-! ## The codec -/

open Number

/-- The item of a number is read back, unless the number has no negative; no shorter item is read as
this number, and its length tells how large the number is. -/
structure Number.WrittenShortest (n : Int64) : Prop where
  reads_back : decode ⟨8, true⟩ (encode n) = .ok n ↔ n ≠ Int64.minValue
  shortest : ∀ rule item, item.length < (encode n).length → decode rule item ≠ .ok n
  length_le : ∀ k, 1 ≤ k → k ≤ 8 → ((encode n).length ≤ k ↔ n.toInt.natAbs < 2 ^ (8 * k - 1))

/-- Without a demand on its form an item is read as the integer that it denotes; it has the shortest
form exactly if it is what this number is written as, and it is true unless it denotes zero. -/
structure Number.ReadAsDenoted (item : Bytes) : Prop where
  reads : ∀ maxLength, item.length ≤ maxLength → decode ⟨maxLength, false⟩ item = .ok (value item)
  denotes : (value item).toInt = signMagnitude item
  minimal : checkMinimal item = .ok () ↔ encode (value item) = item
  truth : Truth.holds item = true ↔ value item ≠ 0

theorem Number.writtenShortest (n : Int64) : WrittenShortest n := by
  have hlow := n.le_toInt
  have hhigh := n.toInt_lt
  constructor
  case reads_back =>
    have hmin : n = Int64.minValue ↔ n.toInt = -2 ^ 63 := by
      rw [← Int64.toInt_inj]
      rfl
    have hsmall : n.toInt.natAbs < signWeight 8 ↔ n ≠ Int64.minValue := by
      rw [ne_eq, hmin, signWeight]
      omega
    rw [decode_encode (Nat.le_refl 8), ← hsmall]
    split_ifs with hfits <;> simp [hfits]
  case shortest =>
    intro rule item hshorter hread
    have hlong : (encode n).length ≤ 9 := by
      rw [length_encode_le_iff, signWeight]
      omega
    obtain ⟨-, hvalue⟩ := decode_eq_ok hread
    have hdenotes : signMagnitude item = n.toInt := by
      rw [← toInt_value (by omega), hvalue]
    have hle : (encode n).length ≤ item.length := by
      rw [length_encode_le_iff, ← hdenotes, natAbs_signMagnitude]
      exact magnitude_lt item
    omega
  case length_le => exact fun k _ _ => length_encode_le_iff n k

theorem Number.readAsDenoted {item : Bytes} (h : item.length ≤ 8) : ReadAsDenoted item := by
  constructor
  case reads =>
    intro maxLength hlength
    rw [decode, if_neg (Nat.not_lt.mpr hlength)]
    rfl
  case denotes => exact toInt_value h
  case minimal =>
    rw [encode_value_eq_iff h, ← isMinimal_iff, checkMinimal]
    cases isMinimal item <;> simp
  case truth =>
    rw [holds_iff, ← natAbs_signMagnitude, ← toInt_value h, Int.natAbs_ne_zero, ne_eq, ne_eq,
      ← Int64.toInt_inj]
    rfl

namespace Stack

open Effect

theorem popNumber_cons (rule : NumberRule) (item : Bytes) (s : Stack) :
    popNumber rule (item :: s) =
      match Number.decode rule item with
      | .ok n => .ok n s
      | .error e => .error e s := by
  have hpop : pop (item :: s) = .ok item s := rfl
  rw [popNumber, bind_of_ok hpop]
  cases Number.decode rule item <;> rfl

theorem popNumber_pushNumber {limit : Nat} (minimal : Bool) (hlimit : limit ≤ 8) (n : Int64)
    (s : Stack) :
    (do pushNumber n; popNumber ⟨limit, minimal⟩) s =
      if n.toInt.natAbs < 2 ^ (8 * limit - 1) then .ok n s
      else .error (.numberTooBig (encode n) limit) s := by
  have hpush : pushNumber n s = .ok () (encode n :: s) := rfl
  rw [bind_of_ok hpush, popNumber_cons, decode_encode hlimit, signWeight]
  dsimp only
  split_ifs <;> rfl

end Stack

/-- Script numbers are a canonical code: each number is written as the only shortest item, each item
is read as the integer that it denotes, and what was put on a stack is taken from it again if it is
below the bound for operands. -/
theorem Number.canonical_codec :
    (∀ n : Int64, WrittenShortest n) ∧
      (∀ item : Bytes, item.length ≤ 8 → ReadAsDenoted item) ∧
      ∀ (n : Int64) (limit : Nat) (minimal : Bool) (s : Stack), 1 ≤ limit → limit ≤ 8 →
        (do Stack.pushNumber n; Stack.popNumber ⟨limit, minimal⟩) s =
          if n.toInt.natAbs < 2 ^ (8 * limit - 1) then .ok n s
          else .error (.numberTooBig (encode n) limit) s :=
  ⟨writtenShortest, fun _ h => readAsDenoted h,
    fun n _ minimal s _ hlimit => Stack.popNumber_pushNumber minimal hlimit n s⟩

/-- A number whose sign needs a byte of its own, and a negative zero. -/
theorem Number.canonical_codec_signByte :
    ((do Stack.pushNumber (-255); Stack.popNumber ⟨1, true⟩) [] =
        (.error (.numberTooBig [0xff, 0x80] 1) [] : EStateM.Result Failure Stack Int64)) ∧
      ((do Stack.pushNumber (-255); Stack.popNumber ⟨2, true⟩) [] =
        (.ok (-255) [] : EStateM.Result Failure Stack Int64)) ∧
      ([0x00, 0x80] : Bytes).length ≤ 8 ∧ decode ⟨2, false⟩ [0x00, 0x80] = .ok 0 ∧
      checkMinimal [0x00, 0x80] ≠ .ok () ∧ Truth.holds [0x00, 0x80] = false := by
  have hencode : encode (-255) = [0xff, 0x80] := by decide +kernel
  have hzero : encode (value [0x00, 0x80]) ≠ [0x00, 0x80] := by decide +kernel
  obtain ⟨-, hread, hpop⟩ := canonical_codec
  have hone := hpop (-255) 1 true [] (by decide) (by decide)
  have htwo := hpop (-255) 2 true [] (by decide) (by decide)
  have hitem := hread [0x00, 0x80] (by decide)
  rw [hencode] at hone
  refine ⟨hone, htwo, by decide, hitem.reads 2 (by decide), fun h => hzero (hitem.minimal.mp h), ?_⟩
  rw [Bool.eq_false_iff, ne_eq, hitem.truth]
  decide

end UtxoSpend
