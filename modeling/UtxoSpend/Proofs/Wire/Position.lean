import Mathlib
import UtxoSpend.Proofs.Wire.RoundTrip

/-!
# Where a read leaves the cursor

A read that succeeds passes over the written form of its result.  A read of fixed width that fails
has not moved.  A compact size is read in two parts, so it may fail behind its first byte.  Main
statement: for every read, how far it moves where it succeeds and where exactly it stands where it
fails; none leaves the data.
-/

namespace UtxoSpend

open Effect

namespace Cursor

structure StandsIn (c : Cursor) (data : Bytes) : Prop where
  position_le : c.position ≤ data.length
  rest : c.rest = data.drop c.position

theorem standsIn_start (data : Bytes) : (start data).StandsIn data :=
  ⟨Nat.zero_le _, rfl⟩

theorem Passes.standsIn {c d : Cursor} {bs data : Bytes} (h : c.Passes bs d)
    (hc : c.StandsIn data) : d.StandsIn data := by
  have hdrop : data.drop c.position = bs ++ d.rest := by rw [← hc.rest, h.rest]
  have hlength : data.length - c.position = bs.length + d.rest.length := by
    rw [← List.length_drop, hdrop, List.length_append]
  have hle := hc.position_le
  constructor
  · rw [h.position]
    omega
  · rw [h.position, ← List.drop_drop, hdrop, List.drop_left]

theorem passes_cons {c : Cursor} {b : UInt8} {rest : Bytes} (h : c.rest = b :: rest) :
    c.Passes [b] ⟨c.position + 1, rest⟩ := ⟨h, rfl⟩

end Cursor

namespace CompactSize

def payloadWidth (marker : UInt8) : Nat :=
  if marker = marker64 then 8 else if marker = marker32 then 4 else if marker = marker16 then 2
  else 0

def leastValue (marker : UInt8) : UInt64 :=
  if marker = marker64 then 0x100000000 else if marker = marker32 then 0x10000
  else if marker = marker16 then 0xfd else 0

def valueOf (marker : UInt8) (payload : Bytes) : UInt64 :=
  if payloadWidth marker = 0 then marker.toUInt64 else UInt64.ofNat (Bytes.leNat payload)

end CompactSize

namespace Read

open CompactSize

variable {ε α : Type}

/-- The read passes over the written form of its result, or it fails where it stood. -/
structure AllOrNothing (read : EStateM ε Cursor α) (write : α → Bytes) : Prop where
  consumes : Consumes read write
  stays : ∀ c e d, read c = .error e d → d = c

/-! ## Fields of fixed width -/

theorem bytes_run (n : Nat) (c : Cursor) :
    bytes n c =
      if c.rest.length < n then .error .unexpectedEnd c
      else .ok (c.rest.take n) ⟨c.position + n, c.rest.drop n⟩ := by
  unfold bytes
  dsimp only
  rw [List.length_take]
  split_ifs with htaken hshort hshort
  · omega
  · rfl
  · rfl
  · omega

theorem bytes_eq_error_iff {n : Nat} {c d : Cursor} {e : DecodeError} :
    bytes n c = .error e d ↔ e = .unexpectedEnd ∧ d = c ∧ c.rest.length < n := by
  rw [bytes_run]
  split_ifs with hshort
  · constructor
    · intro h
      cases h
      exact ⟨rfl, rfl, hshort⟩
    · rintro ⟨rfl, rfl, -⟩
      rfl
  · constructor
    · intro h
      cases h
    · rintro ⟨-, -, hlt⟩
      exact absurd hlt hshort

theorem bytes_allOrNothing (n : Nat) : AllOrNothing (bytes n) id where
  consumes _ _ _ h := (bytes_consumes h).1
  stays _ _ _ h := (bytes_eq_error_iff.mp h).2.1

theorem vector_allOrNothing (n : Nat) : AllOrNothing (vector n) ByteVector.bytes where
  consumes := vector_consumes
  stays c e d h := by
    unfold vector at h
    dsimp only at h
    split_ifs at h
    cases h
    rfl

theorem IsWord.allOrNothing {width : Nat} {toWord : Nat → α} {toNat : α → Nat}
    (h : IsWord width toWord toNat) :
    AllOrNothing (word width toWord) fun v => Bytes.toLE width (toNat v) where
  consumes := h.consumes
  stays c e d hread := by
    unfold word at hread
    cases hbytes : bytes width c with
    | error e' u =>
        rw [bind_of_error hbytes] at hread
        cases hread
        exact (bytes_eq_error_iff.mp hbytes).2.1
    | ok bs u =>
        rw [bind_of_ok hbytes] at hread
        cases hread

theorem u8_allOrNothing : AllOrNothing u8 fun v => [v] :=
  ⟨u8_consumes, isWord_u8.allOrNothing.stays⟩

/-! ## Compact sizes -/

theorem word_run (width : Nat) (toWord : Nat → α) (c : Cursor) :
    word width toWord c =
      if c.rest.length < width then .error .unexpectedEnd c
      else .ok (toWord (Bytes.leNat (c.rest.take width)))
        ⟨c.position + width, c.rest.drop width⟩ := by
  unfold word
  split_ifs with hshort
  · rw [bind_of_error]
    exact bytes_eq_error_iff.mpr ⟨rfl, rfl, hshort⟩
  · have hbytes := bytes_run width c
    rw [if_neg hshort] at hbytes
    rw [bind_of_ok hbytes]
    rfl

/-- The forms after a marker: a value cut short is refused at once, a padded one when it has been
read. -/
theorem wide_run {width : Nat} {toWord : Nat → α} {widen : α → UInt64}
    (hwiden : ∀ n, n < 256 ^ width → widen (toWord n) = UInt64.ofNat n) (least : UInt64)
    (c : Cursor) :
    (word width toWord >>= fun v => atLeast least (widen v)) c =
      if c.rest.length < width then .error .unexpectedEnd c
      else
        let value := UInt64.ofNat (Bytes.leNat (c.rest.take width))
        let after := ⟨c.position + width, c.rest.drop width⟩
        if value < least then .error (.paddedCount value) after else .ok value after := by
  have hword := word_run width toWord c
  split_ifs at hword ⊢ with hshort
  · rw [bind_of_error hword]
  · have hlength : (c.rest.take width).length = width := by
      rw [List.length_take]
      omega
    have hlt := Bytes.leNat_lt (c.rest.take width)
    rw [hlength] at hlt
    rw [bind_of_ok hword, hwiden _ hlt, atLeast]
    dsimp only
    split_ifs <;> rfl

theorem compactSize_nil {c : Cursor} (h : c.rest = []) :
    compactSize c = .error .unexpectedEnd c := by
  have hshort : c.rest.length < 1 := by
    rw [h]
    exact Nat.zero_lt_one
  have hfirst : u8 c = .error .unexpectedEnd c :=
    bind_of_error (bytes_eq_error_iff.mpr ⟨rfl, rfl, hshort⟩)
  exact bind_of_error hfirst

/-- What becomes of a compact size is decided by its first byte, the number of bytes that follow
and the value in them. -/
theorem compactSize_cons {c : Cursor} {marker : UInt8} {rest : Bytes}
    (h : c.rest = marker :: rest) :
    compactSize c =
      if rest.length < payloadWidth marker then .error .unexpectedEnd ⟨c.position + 1, rest⟩
      else
        let value := valueOf marker (rest.take (payloadWidth marker))
        let after := ⟨c.position + 1 + payloadWidth marker, rest.drop (payloadWidth marker)⟩
        if value < leastValue marker then .error (.paddedCount value) after
        else .ok value after := by
  have hfirst : u8 c = .ok marker ⟨c.position + 1, rest⟩ :=
    u8_accepts marker _ _ (Cursor.passes_cons h)
  rw [compactSize_eq, bind_of_ok hfirst]
  by_cases h64 : marker = marker64
  · subst h64
    have hwiden : ∀ n, n < 256 ^ 8 → id (UInt64.ofNat n) = UInt64.ofNat n := fun _ _ => rfl
    rw [if_pos rfl]
    exact wide_run hwiden 0x100000000 ⟨c.position + 1, rest⟩
  · rw [if_neg h64]
    by_cases h32 : marker = marker32
    · subst h32
      rw [if_pos rfl]
      exact wide_run (fun _ hn => UInt32.toUInt64_ofNat' hn) 0x10000 ⟨c.position + 1, rest⟩
    · rw [if_neg h32]
      by_cases h16 : marker = marker16
      · subst h16
        rw [if_pos rfl]
        exact wide_run (fun _ hn => UInt16.toUInt64_ofNat' hn) 0xfd ⟨c.position + 1, rest⟩
      · have hwidth : payloadWidth marker = 0 := by
          rw [payloadWidth, if_neg h64, if_neg h32, if_neg h16]
        have hleast : leastValue marker = 0 := by
          rw [leastValue, if_neg h64, if_neg h32, if_neg h16]
        rw [if_neg h16, valueOf, if_pos hwidth, hwidth, hleast, if_neg (Nat.not_lt_zero _)]
        rfl

/-- Why a compact size cannot be read, and where the cursor is left: in place at the end of the
data, behind the first byte where the value is cut short, and behind a value that is padded. -/
inductive SizeRefused (c : Cursor) : DecodeError → Cursor → Prop
  | atEnd (hrest : c.rest = []) : SizeRefused c .unexpectedEnd c
  | cutShort {marker : UInt8} {rest : Bytes} (hrest : c.rest = marker :: rest)
      (hcut : rest.length < payloadWidth marker) :
      SizeRefused c .unexpectedEnd ⟨c.position + 1, rest⟩
  | padded {marker : UInt8} {payload after : Bytes} (hrest : c.rest = marker :: (payload ++ after))
      (hlength : payload.length = payloadWidth marker)
      (hpadded : valueOf marker payload < leastValue marker) :
      SizeRefused c (.paddedCount (valueOf marker payload))
        ⟨c.position + 1 + payload.length, after⟩

theorem compactSize_eq_error_iff {c d : Cursor} {e : DecodeError} :
    compactSize c = .error e d ↔ SizeRefused c e d := by
  constructor
  · intro h
    cases hrest : c.rest with
    | nil =>
        rw [compactSize_nil hrest] at h
        cases h
        exact .atEnd hrest
    | cons marker rest =>
        rw [compactSize_cons hrest] at h
        split_ifs at h with hcut
        · cases h
          exact .cutShort hrest hcut
        · have hlength : (rest.take (payloadWidth marker)).length = payloadWidth marker := by
            rw [List.length_take]
            omega
          dsimp only at h
          split_ifs at h with hpadded
          cases h
          have hsplit : c.rest = marker :: (rest.take (payloadWidth marker) ++
              rest.drop (payloadWidth marker)) := by
            rw [List.take_append_drop, hrest]
          have hrefused := SizeRefused.padded hsplit hlength hpadded
          rwa [hlength] at hrefused
  · rintro (hrest | ⟨hrest, hcut⟩ | ⟨hrest, hlength, hpadded⟩)
    · exact compactSize_nil hrest
    · rw [compactSize_cons hrest, if_pos hcut]
    · rw [compactSize_cons hrest, ← hlength, if_neg (by simp)]
      dsimp only
      rw [List.take_left, List.drop_left, if_pos hpadded]

/-! ## Counted byte strings -/

/-- Why a counted byte string cannot be read: its size cannot, or fewer bytes follow.  Then the
cursor is left behind the size. -/
inductive CountedRefused (c : Cursor) : DecodeError → Cursor → Prop
  | size {e : DecodeError} {d : Cursor} (h : SizeRefused c e d) : CountedRefused c e d
  | tooFew {size : UInt64} {d : Cursor} (hsize : compactSize c = .ok size d)
      (hfew : d.rest.length < size.toNat) : CountedRefused c .unexpectedEnd d

theorem counted_eq_error_iff {c d : Cursor} {e : DecodeError} :
    counted c = .error e d ↔ CountedRefused c e d := by
  constructor
  · intro h
    unfold counted at h
    cases hsize : compactSize c with
    | error e' u =>
        rw [bind_of_error hsize] at h
        cases h
        exact .size (compactSize_eq_error_iff.mp hsize)
    | ok size u =>
        rw [bind_of_ok hsize] at h
        obtain ⟨rfl, rfl, hfew⟩ := bytes_eq_error_iff.mp h
        exact .tooFew hsize hfew
  · rintro (h | ⟨hsize, hfew⟩)
    · exact bind_of_error (compactSize_eq_error_iff.mpr h)
    · exact (bind_of_ok hsize).trans (bytes_eq_error_iff.mpr ⟨rfl, rfl, hfew⟩)

theorem compactSize_ok_ne_nil {c d : Cursor} {size : UInt64} (h : compactSize c = .ok size d) :
    c.rest ≠ [] ∧ c.position < d.position := by
  cases hrest : c.rest with
  | nil =>
      rw [compactSize_nil hrest] at h
      cases h
  | cons marker rest =>
      rw [compactSize_cons hrest] at h
      dsimp only at h
      split_ifs at h
      cases h
      exact ⟨List.cons_ne_nil _ _, by dsimp only; omega⟩

/-! ## All reads -/

/-- Started at `c`, the read passes over the written form of its result or fails, and stays in
`data`; where it fails, it has not moved exactly if `unmoved` holds. -/
structure Moves (data : Bytes) (c : Cursor) (read : EStateM ε Cursor α) (write : α → Bytes)
    (unmoved : Prop) : Prop where
  passes : ∀ a d, read c = .ok a d → c.Passes (write a) d ∧ d.StandsIn data
  fails : ∀ e d, read c = .error e d → d.StandsIn data ∧ (d.position = c.position ↔ unmoved)

variable {data : Bytes} {c : Cursor}

theorem AllOrNothing.moves {read : EStateM ε Cursor α} {write : α → Bytes}
    (h : AllOrNothing read write) (hc : c.StandsIn data) : Moves data c read write True where
  passes a d hread := ⟨h.consumes c a d hread, (h.consumes c a d hread).standsIn hc⟩
  fails e d hread := by
    rw [h.stays c e d hread]
    exact ⟨hc, iff_of_true rfl trivial⟩

theorem SizeRefused.fails {d : Cursor} {e : DecodeError} (h : SizeRefused c e d)
    (hc : c.StandsIn data) : d.StandsIn data ∧ (d.position = c.position ↔ c.rest = []) := by
  cases h with
  | atEnd hrest => exact ⟨hc, iff_of_true rfl hrest⟩
  | @cutShort marker rest hrest hcut =>
      refine ⟨(Cursor.passes_cons hrest).standsIn hc, iff_of_false ?_ ?_⟩
      · exact Nat.succ_ne_self c.position
      · rw [hrest]
        exact List.cons_ne_nil _ _
  | @padded marker payload after hrest hlength hpadded =>
      have hpass : c.Passes (marker :: payload) ⟨c.position + 1 + payload.length, after⟩ := by
        refine ⟨hrest, ?_⟩
        dsimp only
        rw [List.length_cons, Nat.add_assoc, Nat.add_comm 1]
      refine ⟨hpass.standsIn hc, iff_of_false ?_ ?_⟩
      · dsimp only
        omega
      · rw [hrest]
        exact List.cons_ne_nil _ _

theorem CountedRefused.fails {d : Cursor} {e : DecodeError} (h : CountedRefused c e d)
    (hc : c.StandsIn data) : d.StandsIn data ∧ (d.position = c.position ↔ c.rest = []) := by
  cases h with
  | size h => exact h.fails hc
  | tooFew hsize hfew =>
      obtain ⟨hrest, hmoved⟩ := compactSize_ok_ne_nil hsize
      refine ⟨(compactSize_consumes _ _ _ hsize).standsIn hc, iff_of_false ?_ hrest⟩
      exact Nat.ne_of_gt hmoved

/-- From any place in any data, a read that succeeds moves over exactly what it has read and stays
in the data.  One of fixed width that fails has not moved; a compact size or a counted byte string
that fails has not moved only where no byte is left, and is refused at the places that are listed.
-/
theorem reads_move_over_what_they_read (hc : c.StandsIn data) :
    (∀ n, Moves data c (bytes n) id True ∧ (∀ bs d, bytes n c = .ok bs d → bs.length = n) ∧
      Moves data c (vector n) ByteVector.bytes True) ∧
    Moves data c u8 (fun v => [v]) True ∧ Moves data c u16 Wire.u16 True ∧
    Moves data c u32 Wire.u32 True ∧ Moves data c u64 Wire.u64 True ∧
    Moves data c compactSize CompactSize.encode (c.rest = []) ∧
    (∀ e d, compactSize c = .error e d ↔ SizeRefused c e d) ∧
    Moves data c counted Wire.counted (c.rest = []) ∧
    ∀ e d, counted c = .error e d ↔ CountedRefused c e d := by
  refine ⟨fun n => ⟨(bytes_allOrNothing n).moves hc, fun bs d h => (bytes_consumes h).2,
    (vector_allOrNothing n).moves hc⟩, u8_allOrNothing.moves hc, isWord_u16.allOrNothing.moves hc,
    isWord_u32.allOrNothing.moves hc, isWord_u64.allOrNothing.moves hc, ⟨?_, ?_⟩,
    fun _ _ => compactSize_eq_error_iff, ⟨?_, ?_⟩, fun _ _ => counted_eq_error_iff⟩
  · intro size d h
    have hpass := compactSize_consumes c size d h
    exact ⟨hpass, hpass.standsIn hc⟩
  · intro e d h
    exact (compactSize_eq_error_iff.mp h).fails hc
  · intro bs d h
    have hpass := counted_consumes c bs d h
    exact ⟨hpass, hpass.standsIn hc⟩
  · intro e d h
    exact (counted_eq_error_iff.mp h).fails hc

def shortString : Bytes := [3, 0xaa]

theorem reads_move_over_what_they_read_shortString :
    (Cursor.start shortString).StandsIn shortString ∧
    counted (Cursor.start shortString) = .error .unexpectedEnd ⟨1, [0xaa]⟩ ∧
    (⟨1, [0xaa]⟩ : Cursor).StandsIn shortString := by
  have hstart := Cursor.standsIn_start shortString
  obtain ⟨-, -, -, -, -, -, -, hmoves, hcounted⟩ := reads_move_over_what_they_read hstart
  have hfew : CountedRefused (Cursor.start shortString) .unexpectedEnd ⟨1, [0xaa]⟩ := by
    have hsize : compactSize (Cursor.start shortString) = .ok 3 ⟨1, [0xaa]⟩ := rfl
    exact .tooFew hsize (by decide)
  have hrefused := (hcounted _ _).mpr hfew
  exact ⟨hstart, hrefused, (hmoves.fails _ _ hrefused).1⟩

/-- A compact size that is cut short behind its marker leaves the cursor there, not where it was. -/
theorem compactSize_moves_where_cut_short :
    ¬∀ c e d, compactSize c = .error e d → d.position = c.position := by
  intro hstays
  have hcut : compactSize (Cursor.start [0xfd, 0x01]) = .error .unexpectedEnd ⟨1, [0x01]⟩ := rfl
  exact absurd (hstays _ _ _ hcut) (by decide)

end Read

end UtxoSpend
