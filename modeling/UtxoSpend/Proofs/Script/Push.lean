import Mathlib
import UtxoSpend.Proofs.Script.Chunks

/-!
# The shortest push

Appending data to a script appends one instruction, whose opcode is the shortest that can push data
of this length.  Main statements: every other push of the same data is longer, and the machine's
test, which looks at opcode and length, finds out the shortest push, except that it does not accept
one byte that a number opcode pushes.
-/

namespace UtxoSpend

def pushOpcode (length : Nat) : Opcode :=
  if length ≤ 75 then UInt8.ofNat length
  else if length ≤ 0xff then Opcode.pushData1
  else if length ≤ 0xffff then Opcode.pushData2
  else Opcode.pushData4

namespace Instruction

def push (data : Bytes) : Instruction := ⟨pushOpcode data.length, data⟩

theorem pushOpcode_of_le_75 {length : Nat} (h : length ≤ 75) :
    pushOpcode length ≤ Opcode.data75 ∧ (pushOpcode length).toNat = length ∧
      pushLengthWidth (pushOpcode length) = 0 := by
  rw [pushOpcode, if_pos h]
  have htable : ∀ n : Fin 76, UInt8.ofNat n.val ≤ Opcode.data75 ∧
      (UInt8.ofNat n.val).toNat = n.val ∧ pushLengthWidth (UInt8.ofNat n.val) = 0 := by decide
  exact htable ⟨length, Nat.lt_succ_of_le h⟩

theorem pushLengthWidth_of_gt_75 {length : Nat} (h75 : 75 < length) (h : length ≤ 0xffffffff) :
    pushLengthWidth (pushOpcode length) ≠ 0 ∧
      length < 256 ^ pushLengthWidth (pushOpcode length) := by
  have hwidth1 : pushLengthWidth Opcode.pushData1 = 1 := rfl
  have hwidth2 : pushLengthWidth Opcode.pushData2 = 2 := rfl
  have hwidth4 : pushLengthWidth Opcode.pushData4 = 4 := rfl
  rw [pushOpcode, if_neg (Nat.not_le.mpr h75)]
  by_cases h1 : length ≤ 0xff
  · rw [if_pos h1, hwidth1]
    omega
  · rw [if_neg h1]
    by_cases h2 : length ≤ 0xffff
    · rw [if_pos h2, hwidth2]
      omega
    · rw [if_neg h2, hwidth4]
      omega

theorem isPush_push (data : Bytes) : (push data).op.isPush = true := by
  have hop : pushOpcode data.length ≤ Opcode.pushData4 := by
    by_cases h : data.length ≤ 75
    · exact UInt8.le_trans (pushOpcode_of_le_75 h).1
        (show Opcode.data75 ≤ Opcode.pushData4 by decide)
    · rw [pushOpcode, if_neg h]
      split_ifs <;> decide
  exact decide_eq_true hop

theorem fits_push {data : Bytes} (h : data.length ≤ 0xffffffff) : (push data).Fits := by
  rw [Fits, push]
  by_cases h75 : data.length ≤ 75
  · obtain ⟨hop, hlength, hwidth⟩ := pushOpcode_of_le_75 h75
    rw [if_pos hwidth, if_pos hop, hlength]
  · obtain ⟨hwidth, hlength⟩ := pushLengthWidth_of_gt_75 (Nat.lt_of_not_le h75) h
    rw [if_neg hwidth]
    exact hlength

theorem encode_push {data header : Bytes} (h : pushHeader data.length = .ok header) :
    encode (push data) = header ++ data := by
  rw [encode_eq]
  unfold pushHeader at h
  unfold push pushOpcode
  dsimp only
  split_ifs at h ⊢ with h75 h1 h2 h4 <;> cases h
  · have hwidth := (pushOpcode_of_le_75 h75).2.2
    rw [pushOpcode, if_pos h75] at hwidth
    rw [hwidth]
    rfl
  · rfl
  · rfl
  · rfl

theorem Fits.length_le {i : Instruction} (h : i.Fits) : i.data.length ≤ 0xffffffff := by
  unfold Fits at h
  by_cases hwidth : pushLengthWidth i.op = 0
  · have hop := i.op.toNat_lt
    rw [if_pos hwidth] at h
    split_ifs at h
    · omega
    · omega
  · have hle : pushLengthWidth i.op ≤ 4 := by
      unfold pushLengthWidth
      split_ifs
      all_goals decide
    rw [if_neg hwidth] at h
    exact Nat.le_of_lt_succ (lt_of_lt_of_le h (Nat.pow_le_pow_right (by decide) hle))

theorem exists_pushHeader {length : Nat} (h : length ≤ 0xffffffff) :
    ∃ header, pushHeader length = .ok header := by
  unfold pushHeader
  split_ifs
  all_goals exact ⟨_, rfl⟩

theorem length_le_of_pushHeader {length : Nat} {header : Bytes}
    (h : pushHeader length = .ok header) : length ≤ 0xffffffff := by
  unfold pushHeader at h
  split_ifs at h
  all_goals omega

/-- The shortest push is only refused as wasteful where a number opcode would do. -/
theorem isMinimalPush_push (data : Bytes) :
    (push data).isMinimalPush = true ∨ ∃ b, data = [b] ∧ (1 ≤ b ∧ b ≤ 16 ∨ b = 0x81) := by
  by_cases h75 : data.length ≤ 75
  · obtain ⟨hop, hlength, -⟩ := pushOpcode_of_le_75 h75
    have hne : ∀ op : Opcode, Opcode.data75 < op → pushOpcode data.length ≠ op := by
      rintro op hlt rfl
      exact absurd hop (UInt8.not_le.mpr hlt)
    by_cases hone : pushOpcode data.length = 1
    · rw [hone] at hlength
      obtain ⟨b, rfl⟩ := List.length_eq_one_iff.mp hlength.symm
      by_cases hnumber : 1 ≤ b ∧ b ≤ 16 ∨ b = 0x81
      · exact .inr ⟨b, rfl, hnumber⟩
      · left
        obtain ⟨hrange, h81⟩ := not_or.mp hnumber
        have hsmall : (decide (1 ≤ b) && decide (b ≤ 16)) = false := by
          rw [← Bool.decide_and]
          exact decide_eq_false hrange
        rw [isMinimalPush, push, if_pos hone]
        dsimp only
        rw [hsmall, Bool.not_false, Bool.true_and]
        exact bne_iff_ne.mpr h81
    · left
      rw [isMinimalPush, push, if_neg hone, if_neg (hne _ (by decide)), if_neg (hne _ (by decide)),
        if_neg (hne _ (by decide))]
  · left
    rw [push, pushOpcode, if_neg h75]
    by_cases h1 : data.length ≤ 0xff
    · rw [if_pos h1]
      simpa [isMinimalPush, Opcode.pushData1] using h75
    · rw [if_neg h1]
      by_cases h2 : data.length ≤ 0xffff
      · rw [if_pos h2]
        simpa [isMinimalPush, Opcode.pushData1, Opcode.pushData2] using h1
      · rw [if_neg h2]
        simpa [isMinimalPush, Opcode.pushData1, Opcode.pushData2, Opcode.pushData4] using h2

/-! ## Wasteful pushes -/

theorem width_pushOpcode (length : Nat) :
    pushLengthWidth (pushOpcode length) =
      if length ≤ 75 then 0 else if length ≤ 0xff then 1 else if length ≤ 0xffff then 2 else 4 := by
  split_ifs with h75 h1 h2
  · exact (pushOpcode_of_le_75 h75).2.2
  · rw [pushOpcode, if_neg h75, if_pos h1]
    rfl
  · rw [pushOpcode, if_neg h75, if_neg h1, if_pos h2]
    rfl
  · rw [pushOpcode, if_neg h75, if_neg h1, if_neg h2]
    rfl

/-- A push that can stand in a script is the shortest one, or its data would do with a shorter
length field. -/
theorem eq_push_or_wasteful {i : Instruction} (hfits : i.Fits) (hpush : i.op.isPush = true) :
    i = push i.data ∨
      i.op = Opcode.pushData1 ∧ i.data.length ≤ 75 ∨
      i.op = Opcode.pushData2 ∧ i.data.length ≤ 0xff ∨
      i.op = Opcode.pushData4 ∧ i.data.length ≤ 0xffff := by
  obtain ⟨op, data⟩ := i
  rcases Opcode.bare_or_direct_or_counted op with hbare | ⟨hfirst, hlast⟩ | hcounted
  · obtain ⟨hwidth, hlength⟩ := Opcode.width_of_bare hbare
    rw [Fits, if_pos hwidth, hlength, List.length_eq_zero_iff] at hfits
    obtain rfl | hlarge := hbare
    · cases hfits
      exact .inl rfl
    · exact absurd (of_decide_eq_true hpush) (UInt8.not_le.mpr hlarge)
  · obtain ⟨hwidth, -⟩ := Opcode.width_of_direct hfirst hlast
    rw [Fits, if_pos hwidth, if_pos hlast] at hfits
    have hop : pushOpcode data.length = op := by
      have hle : op.toNat ≤ 75 := UInt8.le_iff_toNat_le.mp hlast
      rw [pushOpcode, hfits, if_pos hle, UInt8.ofNat_toNat]
    exact .inl (by rw [push, hop])
  · have hlength : data.length < 256 ^ pushLengthWidth op := by
      rwa [Fits, if_neg (Opcode.width_of_counted hcounted).1] at hfits
    simp only [push, pushOpcode, mk.injEq, and_true]
    rcases hcounted with rfl | rfl | rfl
    · have hfield : data.length ≤ 0xff := Nat.le_of_lt_succ hlength
      split_ifs with h75
      · exact .inr (.inl ⟨rfl, h75⟩)
      · exact .inl rfl
    · have hfield : data.length ≤ 0xffff := Nat.le_of_lt_succ hlength
      by_cases h1 : data.length ≤ 0xff
      · exact .inr (.inr (.inl ⟨rfl, h1⟩))
      · rw [if_neg (by omega), if_neg h1, if_pos hfield]
        exact .inl rfl
    · by_cases h2 : data.length ≤ 0xffff
      · exact .inr (.inr (.inr ⟨rfl, h2⟩))
      · rw [if_neg (by omega), if_neg (by omega), if_neg h2]
        exact .inl rfl

theorem eq_push_or_longer {i : Instruction} (hfits : i.Fits) (hpush : i.op.isPush = true) :
    i = push i.data ∨ (push i.data).encode.length < i.encode.length := by
  obtain h | h := eq_push_or_wasteful hfits hpush
  · exact .inl h
  · right
    have hwidth := width_pushOpcode i.data.length
    have hdata : (push i.data).data = i.data := rfl
    have hop : (push i.data).op = pushOpcode i.data.length := rfl
    rw [length_encode, length_encode, hdata, hop, hwidth]
    rcases h with ⟨hop, hlength⟩ | ⟨hop, hlength⟩ | ⟨hop, hlength⟩
    · have hfield : pushLengthWidth i.op = 1 := by rw [hop]; rfl
      rw [if_pos hlength, hfield]
      omega
    · have hfield : pushLengthWidth i.op = 2 := by rw [hop]; rfl
      split_ifs <;> omega
    · have hfield : pushLengthWidth i.op = 4 := by rw [hop]; rfl
      split_ifs <;> omega

theorem isMinimalPush_of_number {b : UInt8} (h : 1 ≤ b ∧ b ≤ 16 ∨ b = 0x81) :
    (push [b]).isMinimalPush = false :=
  forall_byte (p := fun b => 1 ≤ b ∧ b ≤ 16 ∨ b = 0x81 → (push [b]).isMinimalPush = false)
    (by decide +kernel) b h

theorem isMinimalPush_iff {i : Instruction} (hfits : i.Fits) (hpush : i.op.isPush = true) :
    i.isMinimalPush = true ↔
      i = push i.data ∧ ¬∃ b, i.data = [b] ∧ (1 ≤ b ∧ b ≤ 16 ∨ b = 0x81) := by
  constructor
  · intro hminimal
    obtain h | h := eq_push_or_wasteful hfits hpush
    · refine ⟨h, ?_⟩
      rintro ⟨b, hdata, hnumber⟩
      rw [h, hdata, isMinimalPush_of_number hnumber] at hminimal
      cases hminimal
    · -- The test compares the length with the bound that the wasteful push stays below.
      exfalso
      rw [isMinimalPush] at hminimal
      rcases h with ⟨hop, hlength⟩ | ⟨hop, hlength⟩ | ⟨hop, hlength⟩
      · simp [hop, Opcode.pushData1] at hminimal
        omega
      · simp [hop, Opcode.pushData1, Opcode.pushData2] at hminimal
        omega
      · simp [hop, Opcode.pushData1, Opcode.pushData2, Opcode.pushData4] at hminimal
        omega
  · rintro ⟨h, hplain⟩
    obtain hminimal | hnumber := isMinimalPush_push i.data
    · rwa [← h] at hminimal
    · exact absurd hnumber hplain

end Instruction

theorem Script.appendPush_eq (s : Script) {data : Bytes} (h : data.length ≤ 0xffffffff) :
    s.appendPush data = .ok ⟨s.bytes ++ (Instruction.push data).encode⟩ := by
  obtain ⟨header, hheader⟩ := Instruction.exists_pushHeader h
  rw [appendPush, hheader, Instruction.encode_push hheader]
  rfl

theorem Script.instructions_appendPush {s t : Script} {data : Bytes} {is : List Instruction}
    (hs : s.instructions = .ok is) (ht : s.appendPush data = .ok t) :
    t.instructions = .ok (is ++ [.push data]) := by
  cases hheader : pushHeader data.length with
  | error e =>
      rw [appendPush, hheader] at ht
      cases ht
  | ok header =>
      rw [appendPush, hheader] at ht
      cases ht
      have hlength := Instruction.length_le_of_pushHeader hheader
      have hpush : Instruction.parse (header ++ data) = .ok [.push data] := by
        refine Instruction.parse_eq_ok_iff.mpr ⟨?_, ?_⟩
        · simpa using Instruction.fits_push hlength
        · rw [← Instruction.encode_push hheader, List.flatMap_singleton]
      exact Instruction.parse_append hs hpush

theorem Script.appendPush_of_le_75 (s : Script) {data : Bytes} (h : data.length ≤ 75) :
    s.appendPush data = .ok ⟨s.bytes ++ (UInt8.ofNat data.length :: data)⟩ := by
  rw [appendPush, pushHeader, if_pos h]
  rfl

theorem Script.size_le_of_appendPush {s t : Script} {data : Bytes} (h : s.appendPush data = .ok t) :
    s.size ≤ t.size := by
  cases hheader : pushHeader data.length with
  | error e =>
      rw [appendPush, hheader] at h
      cases h
  | ok header =>
      rw [appendPush, hheader] at h
      cases h
      rw [size, size, List.length_append]
      exact Nat.le_add_right _ _

end UtxoSpend
