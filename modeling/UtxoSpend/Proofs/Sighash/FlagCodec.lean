import Mathlib
import UtxoSpend.Proofs.Sighash.FlagWord

/-!
# Flags and their words

The word of a flag is read in two parts, the hash type in its low byte and the fork id above it.
Main statements: the words that are read are exactly those of flags whose fork id fits above the
byte, each for its own flag, and the others are told by their bits.
-/

namespace UtxoSpend.SighashFlag

def KeepsForkId (flag : SighashFlag) : Prop := ∀ id ∈ flag.forkId, id.toNat < 2 ^ 24

/-- The words that no flag has. -/
inductive Meaningless (value : UInt32) : Prop
  | base (h : value.toNat % 2 ^ 5 ∉ [1, 2, 3])
  | unused (h : value.toNat.testBit 5 = true)
  | strayForkId (hbit : value.toNat.testBit 6 = false) (habove : 2 ^ 8 ≤ value.toNat)

/-! ## The two parts of a word -/

theorem and_eq_low_and (value mask : UInt32) (hmask : mask.toNat < 2 ^ 8) :
    value &&& mask = value.toUInt8.toUInt32 &&& mask := by
  apply UInt32.toNat_inj.mp
  have hlow : value.toNat &&& mask.toNat < 2 ^ 8 := Nat.lt_of_le_of_lt Nat.and_le_right hmask
  calc (value &&& mask).toNat
      = (value.toNat &&& mask.toNat) % 2 ^ 8 := by
        rw [UInt32.toNat_and, Nat.mod_eq_of_lt hlow]
    _ = value.toNat % 2 ^ 8 &&& mask.toNat := by
        rw [Nat.and_mod_two_pow, Nat.mod_eq_of_lt hmask]
    _ = (value.toUInt8.toUInt32 &&& mask).toNat := by
        rw [UInt32.toNat_and, UInt8.toNat_toUInt32, UInt32.toNat_toUInt8]

theorem baseOf?_low (value : UInt32) : baseOf? value = baseOf? value.toUInt8.toUInt32 := by
  rw [baseOf?, baseOf?, and_eq_low_and value baseMask (by decide)]

theorem byte_shiftRight (b : UInt8) : b.toUInt32 >>> 8 = 0 :=
  forall_byte (p := fun b => b.toUInt32 >>> 8 = 0) (by decide +kernel) b

theorem toNat_shiftRight (value : UInt32) : (value >>> 8).toNat = value.toNat / 2 ^ 8 := by
  rw [UInt32.toNat_shiftRight, Nat.shiftRight_eq_div_pow]
  rfl

/-- A word is read as its hash type, and what stands above it is the fork id. -/
theorem ofUInt32_eq (value : UInt32) :
    ofUInt32 value =
      match ofUInt32 value.toUInt8.toUInt32 with
      | .error _ => .error (.badSighashFlag value)
      | .ok flag =>
        if flag.forkId.isSome then .ok (flag.withForkId (value >>> 8))
        else if value >>> 8 ≠ 0 then .error (.badSighashFlag value)
        else .ok flag := by
  have hany := and_eq_low_and value anyoneCanPayMask (by decide)
  have hunused := and_eq_low_and value unusedMask (by decide)
  have hfork := and_eq_low_and value forkIdMask (by decide)
  unfold ofUInt32
  rw [baseOf?_low, hany, hunused, hfork, byte_shiftRight]
  cases baseOf? value.toUInt8.toUInt32 with
  | none => rfl
  | some base =>
      dsimp only
      by_cases h5 : value.toUInt8.toUInt32 &&& unusedMask ≠ 0
      · rw [if_pos h5, if_pos h5]
      · rw [if_neg h5, if_neg h5]
        by_cases h6 : value.toUInt8.toUInt32 &&& forkIdMask ≠ 0
        · rw [if_pos h6, if_pos h6]
          rfl
        · rw [if_neg h6, if_neg h6, if_neg (show ¬(0 : UInt32) ≠ 0 by decide)]
          rfl

def hasBase (bits : Nat) : Bool := bits % 2 ^ 5 ∈ [1, 2, 3] && !bits.testBit 5

theorem meaningless_iff {value : UInt32} :
    Meaningless value ↔
      hasBase value.toNat = false ∨ value.toNat.testBit 6 = false ∧ 2 ^ 8 ≤ value.toNat := by
  have hbase : hasBase value.toNat = false ↔
      value.toNat % 2 ^ 5 ∉ [1, 2, 3] ∨ value.toNat.testBit 5 = true := by
    rw [hasBase, Bool.and_eq_false_iff, decide_eq_false_iff_not, Bool.not_eq_false']
  rw [hbase]
  constructor
  · rintro (h | h | ⟨h, h'⟩)
    · exact .inl (.inl h)
    · exact .inl (.inr h)
    · exact .inr ⟨h, h'⟩
  · rintro ((h | h) | ⟨h, h'⟩)
    · exact .base h
    · exact .unused h
    · exact .strayForkId h h'

/-- Which bytes are hash types, and of which flags: those that they are read as. -/
theorem ofUInt32_byte (b : UInt8) :
    (ofUInt32 b.toUInt32).toOption.map (fun flag => (flag.toByte, flag.forkId.isSome)) =
      if hasBase b.toNat then some (b, b.toNat.testBit 6) else none :=
  forall_byte (p := fun b =>
    (ofUInt32 b.toUInt32).toOption.map (fun flag => (flag.toByte, flag.forkId.isSome)) =
      if hasBase b.toNat then some (b, b.toNat.testBit 6) else none) (by decide +kernel) b

theorem exists_of_hasBase {b : UInt8} (h : hasBase b.toNat = true) :
    ∃ flag, ofUInt32 b.toUInt32 = .ok flag ∧ flag.toByte = b ∧
      flag.forkId.isSome = b.toNat.testBit 6 := by
  have hbyte := ofUInt32_byte b
  rw [if_pos h] at hbyte
  cases hread : ofUInt32 b.toUInt32 with
  | error e =>
      rw [hread] at hbyte
      cases hbyte
  | ok flag =>
      rw [hread] at hbyte
      exact ⟨flag, rfl, Prod.mk.inj (Option.some.inj hbyte)⟩

theorem exists_error_of_not_hasBase {b : UInt8} (h : hasBase b.toNat = false) :
    ∃ e, ofUInt32 b.toUInt32 = .error e := by
  have hbyte := ofUInt32_byte b
  rw [h, if_neg Bool.false_ne_true] at hbyte
  cases hread : ofUInt32 b.toUInt32 with
  | error e => exact ⟨e, rfl⟩
  | ok flag =>
      rw [hread] at hbyte
      cases hbyte

theorem toByte_of_ofUInt32 {b : UInt8} {flag : SighashFlag} (h : ofUInt32 b.toUInt32 = .ok flag) :
    flag.toByte = b := by
  cases hbase : hasBase b.toNat with
  | false =>
      obtain ⟨e, herror⟩ := exists_error_of_not_hasBase hbase
      cases h.symm.trans herror
  | true =>
      obtain ⟨flag', hread, hbyte, -⟩ := exists_of_hasBase hbase
      cases h.symm.trans hread
      exact hbyte

/-- A flag has a word exactly if it has its low byte and, of its fork id, what stands above. -/
theorem toUInt32_eq_iff {flag : SighashFlag} {value : UInt32} :
    flag.toUInt32 = value ↔ flag.toByte = value.toUInt8 ∧ flag.forkBits = value.toNat / 2 ^ 8 := by
  have hbyte := flag.toByte.toNat_lt
  rw [← UInt32.toNat_inj, ← UInt8.toNat_inj, toNat_toUInt32, UInt32.toNat_toUInt8]
  omega

/-! ## Reading -/

/-- A word is read as a flag exactly if it is the word of the flag and keeps its fork id. -/
theorem ofUInt32_eq_ok_iff {value : UInt32} {flag : SighashFlag} :
    ofUInt32 value = .ok flag ↔ flag.KeepsForkId ∧ flag.toUInt32 = value := by
  have hvalue := value.toNat_lt
  have habove := toNat_shiftRight value
  constructor
  · intro h
    rw [ofUInt32_eq] at h
    cases hread : ofUInt32 value.toUInt8.toUInt32 with
    | error e =>
        rw [hread] at h
        cases h
    | ok low =>
        rw [hread] at h
        dsimp only at h
        have hbyte := toByte_of_ofUInt32 hread
        split_ifs at h with hfork hstray
        · cases h
          have hsame : (low.withForkId (value >>> 8)).toByte = low.toByte :=
            toByte_eq_iff.mpr ⟨rfl, rfl, hfork.symm⟩
          refine ⟨?_, toUInt32_eq_iff.mpr ⟨hsame.trans hbyte, ?_⟩⟩
          · intro id hid
            cases hid
            omega
          · change (value >>> 8).toNat % 2 ^ 24 = _
            omega
        · cases h
          have hnone : flag.forkId = none := by simpa using hfork
          have hzero : value >>> 8 = 0 := not_not.mp hstray
          refine ⟨?_, toUInt32_eq_iff.mpr ⟨hbyte, ?_⟩⟩
          · intro id hid
            rw [hnone] at hid
            cases hid
          · rw [forkBits, hnone, ← habove, hzero]
            rfl
  · rintro ⟨hkeeps, hword⟩
    obtain ⟨hbyte, hbits⟩ := toUInt32_eq_iff.mp hword
    rw [ofUInt32_eq, ← hbyte, ofUInt32_toByte]
    obtain ⟨base, anyoneCanPay, forkId⟩ := flag
    cases forkId with
    | none =>
        have hzero : value >>> 8 = 0 := UInt32.toNat_inj.mp (habove.trans hbits.symm)
        simp [hzero]
    | some id =>
        have hid : value >>> 8 = id := by
          refine UInt32.toNat_inj.mp (habove.trans (hbits.symm.trans ?_))
          exact Nat.mod_eq_of_lt (hkeeps id rfl)
        rw [hid]
        rfl

theorem ofUInt32_eq_error_iff {value : UInt32} {e : TransactionError} :
    ofUInt32 value = .error e ↔ e = .badSighashFlag value ∧ Meaningless value := by
  have hlow : value.toUInt8.toNat = value.toNat % 2 ^ 8 := UInt32.toNat_toUInt8 value
  have hbit : ∀ i < 8, value.toUInt8.toNat.testBit i = value.toNat.testBit i := by
    intro i hi
    rw [hlow, Nat.testBit_mod_two_pow, decide_eq_true hi, Bool.true_and]
  have hbase : hasBase value.toUInt8.toNat = hasBase value.toNat := by
    have hfive : value.toUInt8.toNat % 2 ^ 5 = value.toNat % 2 ^ 5 := by omega
    rw [hasBase, hasBase, hbit 5 (by decide), hfive]
  have habove : value >>> 8 ≠ 0 ↔ 2 ^ 8 ≤ value.toNat := by
    rw [ne_eq, ← UInt32.toNat_inj, toNat_shiftRight, UInt32.toNat_zero]
    omega
  rw [ofUInt32_eq, meaningless_iff, ← hbase, ← habove]
  cases hgood : hasBase value.toUInt8.toNat with
  | false =>
      obtain ⟨cause, hread⟩ := exists_error_of_not_hasBase hgood
      rw [hread]
      exact ⟨fun h => ⟨(Except.error.inj h).symm, .inl rfl⟩, fun h => congrArg _ h.1.symm⟩
  | true =>
      obtain ⟨low, hread, -, hfork⟩ := exists_of_hasBase hgood
      rw [hread]
      dsimp only
      rw [hfork, hbit 6 (by decide)]
      cases value.toNat.testBit 6 with
      | true => simp
      | false => by_cases hstray : value >>> 8 = 0 <;> simp [hstray, eq_comm]

end UtxoSpend.SighashFlag
