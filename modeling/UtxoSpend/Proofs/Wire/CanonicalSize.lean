import Mathlib
import UtxoSpend.Proofs.Wire.Position

/-!
# One spelling for every size

A number can be spelled as a compact size in every width that holds it, but it is written in one of
them only and read in no other.  The thresholds stand in three places: where the size of the written
form is told, where it is written and where it is read.  Main statement: the written form is the
shortest spelling, and a read accepts it, refuses a wider spelling by its number and a spelling that
is cut short as such; there is nothing else.
-/

namespace UtxoSpend

namespace CompactSize

/-- The bytes spell the number, in whatever width: alone, or behind the marker of the width. -/
inductive Spells : Bytes → UInt64 → Prop
  | byte (b : UInt8) (h : b < marker16) : Spells [b] b.toUInt64
  | word16 (v : UInt16) : Spells (marker16 :: Wire.u16 v) v.toUInt64
  | word32 (v : UInt32) : Spells (marker32 :: Wire.u32 v) v.toUInt64
  | word64 (v : UInt64) : Spells (marker64 :: Wire.u64 v) v

/-! ## First byte and payload -/

theorem payloadWidth_of_lt {b : UInt8} (h : b < marker16) :
    payloadWidth b = 0 ∧ leastValue b = 0 := by
  have hne : ∀ m : UInt8, marker16 ≤ m → b ≠ m := by
    rintro m hm rfl
    exact absurd h (UInt8.not_lt.mpr hm)
  have h64 : b ≠ marker64 := hne _ (by decide)
  have h32 : b ≠ marker32 := hne _ (by decide)
  have h16 : b ≠ marker16 := hne _ (by decide)
  rw [payloadWidth, leastValue, if_neg h64, if_neg h32, if_neg h16, if_neg h64, if_neg h32,
    if_neg h16]
  exact ⟨rfl, rfl⟩

theorem lt_or_marker (b : UInt8) : b < marker16 ∨ b = marker16 ∨ b = marker32 ∨ b = marker64 := by
  simp only [marker16, marker32, marker64]
  grind

theorem spells_iff {bs : Bytes} {v : UInt64} :
    Spells bs v ↔ ∃ marker payload, bs = marker :: payload ∧
      payload.length = payloadWidth marker ∧ v = valueOf marker payload := by
  constructor
  · rintro (⟨b, h⟩ | v | v | v)
    · have hwidth := (payloadWidth_of_lt h).1
      exact ⟨b, [], rfl, hwidth.symm, by rw [valueOf, if_pos hwidth]⟩
    · refine ⟨_, _, rfl, Bytes.length_toLE 2 _, ?_⟩
      rw [valueOf, if_neg (by decide), Wire.u16, Bytes.leNat_toLE_of_lt v.toNat_lt,
        UInt64.ofNat_uInt16ToNat]
    · refine ⟨_, _, rfl, Bytes.length_toLE 4 _, ?_⟩
      rw [valueOf, if_neg (by decide), Wire.u32, Bytes.leNat_toLE_of_lt v.toNat_lt,
        UInt64.ofNat_uInt32ToNat]
    · refine ⟨_, _, rfl, Bytes.length_toLE 8 _, ?_⟩
      rw [valueOf, if_neg (by decide), Wire.u64, Bytes.leNat_toLE_of_lt v.toNat_lt,
        UInt64.ofNat_toNat]
  · rintro ⟨marker, payload, rfl, hlength, rfl⟩
    -- The payload is the word that it holds, written out.
    have hword : Bytes.toLE (payloadWidth marker) (Bytes.leNat payload) = payload := by
      rw [← hlength]
      exact Bytes.toLE_leNat payload
    have hlt := Bytes.leNat_lt payload
    rw [hlength] at hlt
    rcases lt_or_marker marker with h | rfl | rfl | rfl
    · have hwidth := (payloadWidth_of_lt h).1
      rw [hwidth, List.length_eq_zero_iff] at hlength
      rw [valueOf, if_pos hwidth, hlength]
      exact .byte marker h
    · have h := Spells.word16 (UInt16.ofNat (Bytes.leNat payload))
      rw [Wire.u16, UInt16.toNat_ofNat_of_lt' hlt, UInt16.toUInt64_ofNat' hlt] at h
      rw [valueOf, if_neg (by decide)]
      rwa [show Bytes.toLE 2 (Bytes.leNat payload) = payload from hword] at h
    · have h := Spells.word32 (UInt32.ofNat (Bytes.leNat payload))
      rw [Wire.u32, UInt32.toNat_ofNat_of_lt' hlt, UInt32.toUInt64_ofNat' hlt] at h
      rw [valueOf, if_neg (by decide)]
      rwa [show Bytes.toLE 4 (Bytes.leNat payload) = payload from hword] at h
    · have h := Spells.word64 (UInt64.ofNat (Bytes.leNat payload))
      rw [Wire.u64, UInt64.toNat_ofNat_of_lt' hlt] at h
      rw [valueOf, if_neg (by decide)]
      rwa [show Bytes.toLE 8 (Bytes.leNat payload) = payload from hword] at h

/-! ## Width -/

theorem size_eq (v : UInt64) :
    size v = if v.toNat < 0xfd then 1 else if v.toNat ≤ 0xffff then 3
      else if v.toNat ≤ 0xffffffff then 5 else 9 := by
  simp only [size, UInt64.lt_iff_toNat_lt, UInt64.le_iff_toNat_le, UInt64.reduceToNat]

theorem length_encode (v : UInt64) : (encode v).length = size v := by
  rw [encode, size]
  split_ifs
  · rfl
  · rw [List.length_cons, Bytes.length_toLE]
  · rw [List.length_cons, Bytes.length_toLE]
  · rw [List.length_cons, Bytes.length_toLE]

theorem spells_encode (v : UInt64) : Spells (encode v) v := by
  rw [encode]
  simp only [UInt64.lt_iff_toNat_lt, UInt64.le_iff_toNat_le, UInt64.reduceToNat]
  split_ifs with h8 h16 h32
  · have hbyte : v.toUInt8.toNat = v.toNat := by
      rw [UInt64.toNat_toUInt8]
      omega
    have hspells := Spells.byte v.toUInt8 (by
      rw [UInt8.lt_iff_toNat_lt, hbyte]
      exact h8)
    rwa [UInt64.toNat_inj.mp ((UInt8.toNat_toUInt64 _).trans hbyte)] at hspells
  · have hword : v.toUInt16.toNat = v.toNat := by
      rw [UInt64.toNat_toUInt16]
      omega
    have hspells := Spells.word16 v.toUInt16
    rwa [Wire.u16, hword, UInt64.toNat_inj.mp ((UInt16.toNat_toUInt64 _).trans hword)] at hspells
  · have hword : v.toUInt32.toNat = v.toNat := by
      rw [UInt64.toNat_toUInt32]
      omega
    have hspells := Spells.word32 v.toUInt32
    rwa [Wire.u32, hword, UInt64.toNat_inj.mp ((UInt32.toNat_toUInt64 _).trans hword)] at hspells
  · exact .word64 v

theorem toNat_valueOf {marker : UInt8} {payload : Bytes} (hwide : payloadWidth marker ≠ 0)
    (hlength : payload.length = payloadWidth marker) :
    (valueOf marker payload).toNat = Bytes.leNat payload ∧
      Bytes.leNat payload < 256 ^ payloadWidth marker := by
  have hle : payloadWidth marker ≤ 8 := by
    unfold payloadWidth
    split_ifs <;> decide
  have hlt := Bytes.leNat_lt payload
  rw [hlength] at hlt
  have hword : Bytes.leNat payload < UInt64.size :=
    Nat.lt_of_lt_of_le hlt (Nat.pow_le_pow_right (by decide) hle)
  rw [valueOf, if_neg hwide, UInt64.toNat_ofNat_of_lt' hword]
  exact ⟨rfl, hlt⟩

theorem size_lt_iff {marker : UInt8} {payload : Bytes}
    (hlength : payload.length = payloadWidth marker) :
    size (valueOf marker payload) < (marker :: payload).length ↔
      valueOf marker payload < leastValue marker := by
  rw [size_eq, UInt64.lt_iff_toNat_lt, List.length_cons, hlength]
  rcases lt_or_marker marker with h | rfl | rfl | rfl
  · obtain ⟨hwidth, hleast⟩ := payloadWidth_of_lt h
    have hsmall : marker.toNat < 0xfd := UInt8.lt_iff_toNat_lt.mp h
    rw [hwidth, hleast, valueOf, if_pos hwidth, UInt8.toNat_toUInt64, if_pos hsmall]
    exact iff_of_false (Nat.lt_irrefl 1) (Nat.not_lt_zero _)
  · obtain ⟨hvalue, hlt⟩ := toNat_valueOf (show payloadWidth marker16 ≠ 0 by decide) hlength
    have hwidth : payloadWidth marker16 = 2 := rfl
    have hleast : (leastValue marker16).toNat = 0xfd := rfl
    rw [hwidth] at hlt
    rw [hvalue, hwidth, hleast]
    split_ifs <;> omega
  · obtain ⟨hvalue, hlt⟩ := toNat_valueOf (show payloadWidth marker32 ≠ 0 by decide) hlength
    have hwidth : payloadWidth marker32 = 4 := rfl
    have hleast : (leastValue marker32).toNat = 0x10000 := rfl
    rw [hwidth] at hlt
    rw [hvalue, hwidth, hleast]
    split_ifs <;> omega
  · obtain ⟨hvalue, hlt⟩ := toNat_valueOf (show payloadWidth marker64 ≠ 0 by decide) hlength
    have hwidth : payloadWidth marker64 = 8 := rfl
    have hleast : (leastValue marker64).toNat = 0x100000000 := rfl
    rw [hwidth] at hlt
    rw [hvalue, hwidth, hleast]
    split_ifs <;> omega

end CompactSize

namespace Read

open CompactSize

variable {c d : Cursor} {bs : Bytes} {v : UInt64}

/-- A spelling is read whatever follows it, and its number is the answer or the complaint. -/
theorem compactSize_spelled (h : Spells bs v) (hpass : c.Passes bs d) :
    compactSize c = if size v < bs.length then .error (.paddedCount v) d else .ok v d := by
  obtain ⟨marker, payload, rfl, hlength, rfl⟩ := spells_iff.mp h
  have hrest : c.rest = marker :: (payload ++ d.rest) := hpass.rest
  have hfull : ¬(payload ++ d.rest).length < payloadWidth marker := by
    rw [List.length_append]
    omega
  have hafter : (⟨c.position + 1 + payload.length, d.rest⟩ : Cursor) = d := by
    have hposition := hpass.position
    rw [List.length_cons] at hposition
    rw [Nat.add_assoc, Nat.add_comm 1, ← hposition]
  rw [compactSize_cons hrest, if_neg hfull, ← hlength]
  dsimp only
  rw [List.take_left, List.drop_left, hafter]
  by_cases hpadded : valueOf marker payload < leastValue marker
  · rw [if_pos hpadded, if_pos ((size_lt_iff hlength).mpr hpadded)]
  · rw [if_neg hpadded, if_neg (mt (size_lt_iff hlength).mp hpadded)]

/-- The written form is the only spelling of its width, and none is shorter. -/
theorem eq_encode_or_wider (h : Spells bs v) : bs = encode v ∨ size v < bs.length := by
  by_cases hwider : size v < bs.length
  · exact .inr hwider
  · left
    have hpass : (Cursor.start bs).Passes bs ⟨bs.length, []⟩ :=
      ⟨(List.append_nil bs).symm, (Nat.zero_add _).symm⟩
    have hread := compactSize_spelled h hpass
    rw [if_neg hwider] at hread
    have hwritten := (compactSize_consumes _ _ _ hread).rest
    rwa [List.append_nil] at hwritten

def CutShort (bs : Bytes) : Prop := ∃ whole v, Spells whole v ∧ bs <+: whole ∧ bs ≠ whole

theorem cutShort_iff : CutShort bs ↔
    bs = [] ∨ ∃ marker rest, bs = marker :: rest ∧ rest.length < payloadWidth marker := by
  constructor
  · rintro ⟨whole, v, hspells, hprefix, hne⟩
    obtain ⟨marker, payload, rfl, hlength, -⟩ := spells_iff.mp hspells
    cases bs with
    | nil => exact .inl rfl
    | cons b rest =>
        obtain ⟨rfl, hrest⟩ := List.cons_prefix_cons.mp hprefix
        refine .inr ⟨b, rest, rfl, ?_⟩
        rw [← hlength]
        refine Nat.lt_of_le_of_ne hrest.length_le fun heq => hne ?_
        rw [hrest.eq_of_length heq]
  · rintro (rfl | ⟨marker, rest, rfl, hcut⟩)
    · exact ⟨[0], _, .byte 0 (by decide), List.nil_prefix, by decide⟩
    · let payload := rest ++ List.replicate (payloadWidth marker - rest.length) 0
      have hlength : payload.length = payloadWidth marker := by
        rw [List.length_append, List.length_replicate]
        omega
      refine ⟨marker :: payload, _, spells_iff.mpr ⟨_, _, rfl, hlength, rfl⟩, ?_, ?_⟩
      · exact List.cons_prefix_cons.mpr ⟨rfl, List.prefix_append _ _⟩
      · intro heq
        have hrest : rest = payload := (List.cons.inj heq).2
        rw [← hrest] at hlength
        omega

/-! ## The three answers -/

structure SizeDecided (c : Cursor) : Prop where
  accepted : ∀ v d, compactSize c = .ok v d ↔ c.Passes (encode v) d
  padded : ∀ v d, compactSize c = .error (.paddedCount v) d ↔
    ∃ bs, Spells bs v ∧ size v < bs.length ∧ c.Passes bs d
  cutShort : (∃ d, compactSize c = .error .unexpectedEnd d) ↔ CutShort c.rest
  refusals : ∀ e d, compactSize c = .error e d → e = .unexpectedEnd ∨ ∃ v, e = .paddedCount v

theorem sizeDecided (c : Cursor) : SizeDecided c := by
  constructor
  case accepted =>
    exact fun v d => ⟨compactSize_consumes c v d, compactSize_accepts v c d⟩
  case padded =>
    intro v d
    constructor
    · intro h
      cases compactSize_eq_error_iff.mp h with
      | @padded marker payload after hrest hlength hpadded =>
          refine ⟨marker :: payload, spells_iff.mpr ⟨_, _, rfl, hlength, rfl⟩,
            (size_lt_iff hlength).mpr hpadded, hrest, ?_⟩
          rw [List.length_cons, Nat.add_comm payload.length, Nat.add_assoc]
    · rintro ⟨bs, hspells, hwider, hpass⟩
      rw [compactSize_spelled hspells hpass, if_pos hwider]
  case cutShort =>
    rw [cutShort_iff]
    constructor
    · rintro ⟨d, h⟩
      cases compactSize_eq_error_iff.mp h with
      | atEnd hrest => exact .inl hrest
      | cutShort hrest hcut => exact .inr ⟨_, _, hrest, hcut⟩
    · rintro (hrest | ⟨marker, rest, hrest, hcut⟩)
      · exact ⟨_, compactSize_eq_error_iff.mpr (.atEnd hrest)⟩
      · exact ⟨_, compactSize_eq_error_iff.mpr (.cutShort hrest hcut)⟩
  case refusals =>
    intro e d h
    cases compactSize_eq_error_iff.mp h with
    | atEnd => exact .inl rfl
    | cutShort => exact .inl rfl
    | padded => exact .inr ⟨_, rfl⟩

/-- A number has one written form, which is the shortest of its spellings and has the size that is
told for it.  At every place it is the only one that is read; a wider spelling is refused by its
number, and one that is cut short as such. -/
theorem compactSizes_canonical :
    (∀ v, (encode v).length = size v ∧ Spells (encode v) v ∧
      ∀ bs, Spells bs v → bs = encode v ∨ size v < bs.length) ∧
    ∀ c, SizeDecided c :=
  ⟨fun v => ⟨length_encode v, spells_encode v, fun _ => eq_encode_or_wider⟩, sizeDecided⟩

/-- The largest number of one byte, spelled in four, and the same without its last byte. -/
theorem compactSizes_canonical_fourBytes :
    Spells [0xfe, 0xfc, 0, 0, 0] 0xfc ∧
    compactSize ⟨7, [0xfe, 0xfc, 0, 0, 0, 0xaa]⟩ = .error (.paddedCount 0xfc) ⟨12, [0xaa]⟩ ∧
    (∃ d, compactSize ⟨7, [0xfe, 0xfc, 0, 0]⟩ = .error .unexpectedEnd d) ∧
    compactSize ⟨7, [0xfc, 0xaa]⟩ = .ok 0xfc ⟨8, [0xaa]⟩ := by
  have hspells : Spells [0xfe, 0xfc, 0, 0, 0] 0xfc := .word32 0xfc
  obtain ⟨hwritten, hread⟩ := compactSizes_canonical
  have hwider : size 0xfc < 5 := by
    rcases (hwritten 0xfc).2.2 _ hspells with h | h
    · exact absurd h (by decide)
    · exact h
  refine ⟨hspells, ?_, ?_, ?_⟩
  · exact ((hread _).padded _ _).mpr ⟨_, hspells, hwider, rfl, rfl⟩
  · exact (hread _).cutShort.mpr ⟨_, _, hspells, ⟨[0], rfl⟩, by decide⟩
  · exact ((hread _).accepted _ _).mpr ⟨rfl, rfl⟩

end Read

end UtxoSpend
