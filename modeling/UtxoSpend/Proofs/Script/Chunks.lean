import Mathlib
import UtxoSpend.Proofs.Script.Parsing

/-!
# Chunks and instructions of the same bytes

Tools look at the chunks of a script, the machine runs its instructions, and each has a reader of
its own.  Main statement: both readers accept the same byte strings and cut them at the same places,
what they read is written as the same bytes again, and they refuse a script exactly where the length
field or the data of a push runs past its end.
-/

namespace UtxoSpend

/-! ## The three kinds of opcodes -/

namespace Opcode

theorem bare_or_direct_or_counted (op : Opcode) :
    (op = 0 ∨ pushData4 < op) ∨ (1 ≤ op ∧ op ≤ data75) ∨
      (op = pushData1 ∨ op = pushData2 ∨ op = pushData4) := by
  simp only [pushData1, pushData2, pushData4, data75]
  grind

theorem width_of_bare {op : Opcode} (h : op = 0 ∨ pushData4 < op) :
    pushLengthWidth op = 0 ∧ (if op ≤ data75 then op.toNat else 0) = 0 := by
  rcases h with rfl | h
  · decide
  · simp only [pushLengthWidth, pushData1, pushData2, pushData4, data75] at *
    grind

theorem width_of_direct {op : Opcode} (hfirst : 1 ≤ op) (hlast : op ≤ data75) :
    pushLengthWidth op = 0 ∧ ¬(op = 0 ∨ pushData4 < op) := by
  simp only [pushLengthWidth, pushData1, pushData2, pushData4, data75] at *
  grind

theorem width_of_counted {op : Opcode}
    (h : op = pushData1 ∨ op = pushData2 ∨ op = pushData4) :
    pushLengthWidth op ≠ 0 ∧ ¬(op = 0 ∨ pushData4 < op) ∧ ¬op ≤ data75 := by
  rcases h with rfl | rfl | rfl <;> decide

end Opcode

def announced (op : Opcode) (rest : Bytes) : Nat :=
  if pushLengthWidth op = 0 then if op ≤ Opcode.data75 then op.toNat else 0
  else Bytes.leNat (rest.take (pushLengthWidth op))

inductive RunsPast (op : Opcode) (rest : Bytes) : Prop
  | field (h : rest.length < pushLengthWidth op) : RunsPast op rest
  | data (h : rest.length < pushLengthWidth op + announced op rest) : RunsPast op rest

theorem runsPast_iff {op : Opcode} {rest : Bytes} :
    RunsPast op rest ↔ rest.length < pushLengthWidth op + announced op rest := by
  constructor
  · rintro (h | h)
    · exact Nat.lt_add_right _ h
    · exact h
  · exact .data

/-! ## Chunks that can be read -/

namespace Chunk

/-- Chunks that can stand in a script: direct pushes with as much data as they say, pushes with a
length that fits its field, and opcodes without data. -/
inductive WellFormed : Chunk → Prop
  | direct {op : Opcode} {data : Bytes} (hfirst : 1 ≤ op) (hlast : op ≤ Opcode.data75)
      (hlength : data.length = op.toNat) : WellFormed ⟨op, some data⟩
  | counted {op : Opcode} {data : Bytes}
      (hop : op = Opcode.pushData1 ∨ op = Opcode.pushData2 ∨ op = Opcode.pushData4)
      (hlength : data.length < 256 ^ pushLengthWidth op) : WellFormed ⟨op, some data⟩
  | bare {op : Opcode} (hop : op = 0 ∨ Opcode.pushData4 < op) : WellFormed ⟨op, none⟩

def instruction (c : Chunk) : Instruction := ⟨c.op, c.payload⟩

theorem encode_instruction (c : Chunk) : c.instruction.encode = c.encode := rfl

end Chunk

namespace Instruction

def chunk (i : Instruction) : Chunk :=
  ⟨i.op, if i.op = 0 ∨ Opcode.pushData4 < i.op then none else some i.data⟩

theorem instruction_chunk {i : Instruction} (h : i.Fits) : i.chunk.instruction = i := by
  by_cases hbare : i.op = 0 ∨ Opcode.pushData4 < i.op
  · obtain ⟨hwidth, hlength⟩ := Opcode.width_of_bare hbare
    rw [Fits, if_pos hwidth, hlength] at h
    have hdata : i.data = [] := List.length_eq_zero_iff.mp h
    rw [chunk, if_pos hbare, Chunk.instruction, Chunk.payload, Option.getD_none, ← hdata]
  · rw [chunk, if_neg hbare]
    rfl

theorem wellFormed_chunk {i : Instruction} (h : i.Fits) : i.chunk.WellFormed := by
  rcases Opcode.bare_or_direct_or_counted i.op with hbare | ⟨hfirst, hlast⟩ | hcounted
  · rw [chunk, if_pos hbare]
    exact .bare hbare
  · obtain ⟨hwidth, hbare⟩ := Opcode.width_of_direct hfirst hlast
    rw [Fits, if_pos hwidth, if_pos hlast] at h
    rw [chunk, if_neg hbare]
    exact .direct hfirst hlast h
  · obtain ⟨hwidth, hbare, -⟩ := Opcode.width_of_counted hcounted
    rw [Fits, if_neg hwidth] at h
    rw [chunk, if_neg hbare]
    exact .counted hcounted h

theorem extent_eq (op : Opcode) (rest : Bytes) :
    extent op rest =
      if rest.length < pushLengthWidth op then .error .truncatedLength
      else .ok (pushLengthWidth op, announced op rest) := by
  unfold extent announced
  by_cases hwidth : pushLengthWidth op = 0
  · simp [hwidth]
  · simp [hwidth]

theorem announced_of_fits {i : Instruction} (h : i.Fits) (rest : Bytes) :
    announced i.op (Bytes.toLE (pushLengthWidth i.op) i.data.length ++ rest) = i.data.length := by
  have hextent := extent_of_fits h rest
  rw [extent_eq] at hextent
  split_ifs at hextent
  exact (Prod.mk.inj (Except.ok.inj hextent)).2

end Instruction

namespace Chunk

theorem WellFormed.fits {c : Chunk} (h : c.WellFormed) : c.instruction.Fits := by
  cases h with
  | direct hfirst hlast hlength =>
      rw [Instruction.Fits, instruction, if_pos (Opcode.width_of_direct hfirst hlast).1,
        if_pos hlast]
      exact hlength
  | counted hop hlength =>
      rw [Instruction.Fits, instruction, if_neg (Opcode.width_of_counted hop).1]
      exact hlength
  | bare hop =>
      obtain ⟨hwidth, hnone⟩ := Opcode.width_of_bare hop
      rw [Instruction.Fits, instruction, if_pos hwidth, hnone]
      rfl

theorem WellFormed.chunk_instruction {c : Chunk} (h : c.WellFormed) : c.instruction.chunk = c := by
  cases h with
  | direct hfirst hlast hlength =>
      rw [Instruction.chunk, instruction, if_neg (Opcode.width_of_direct hfirst hlast).2]
      rfl
  | counted hop hlength =>
      rw [Instruction.chunk, instruction, if_neg (Opcode.width_of_counted hop).2.1]
      rfl
  | bare hop => rw [Instruction.chunk, instruction, if_pos hop]

/-! ## The two readers -/

theorem readData_eq (op : Opcode) (length : Nat) (rest : Bytes) :
    readData op length rest =
      if rest.length < length then .error .truncatedPush
      else .ok (⟨op, some (rest.take length)⟩, rest.drop length) := by
  unfold readData
  dsimp only
  rw [List.length_take]
  split_ifs with hfull hshort hshort
  · omega
  · rfl
  · rfl
  · omega

theorem read_eq (op : Opcode) (rest : Bytes) :
    read op rest =
      if rest.length < pushLengthWidth op + announced op rest then .error .truncatedPush
      else
        .ok (Instruction.chunk
            ⟨op, (rest.drop (pushLengthWidth op)).take (announced op rest)⟩,
          rest.drop (pushLengthWidth op + announced op rest)) := by
  rcases Opcode.bare_or_direct_or_counted op with hbare | ⟨hfirst, hlast⟩ | hcounted
  · obtain ⟨hwidth, hnone⟩ := Opcode.width_of_bare hbare
    rw [read, if_pos hbare, announced, if_pos hwidth, hnone, hwidth, if_neg (Nat.not_lt_zero _),
      Instruction.chunk, if_pos hbare]
    rfl
  · obtain ⟨hwidth, hbare⟩ := Opcode.width_of_direct hfirst hlast
    rw [read, if_neg hbare, if_pos hlast, readData_eq, announced, if_pos hwidth, if_pos hlast,
      hwidth, Instruction.chunk, if_neg hbare, Nat.zero_add, List.drop_zero]
  · obtain ⟨hwidth, hbare, hlast⟩ := Opcode.width_of_counted hcounted
    rw [read, if_neg hbare, if_neg hlast, announced, if_neg hwidth, Instruction.chunk,
      if_neg hbare]
    dsimp only
    by_cases hfield : rest.length < pushLengthWidth op
    · have hshort : (rest.take (pushLengthWidth op)).length ≠ pushLengthWidth op := by
        rw [List.length_take]
        omega
      rw [if_neg hshort, if_pos (Nat.lt_add_right _ hfield)]
    · have hfull : (rest.take (pushLengthWidth op)).length = pushLengthWidth op := by
        rw [List.length_take]
        omega
      rw [if_pos hfull, readData_eq, List.length_drop, List.drop_drop]
      split_ifs with hdata hpast hpast
      · rfl
      · omega
      · omega
      · rfl

theorem decodeOnto_cons (acc : List Chunk) (op : Opcode) (rest : Bytes) :
    decodeOnto acc (op :: rest) =
      match read op rest with
      | .error e => .error e
      | .ok (c, left) => decodeOnto (c :: acc) left := by
  rw [decodeOnto]
  split <;> simp [*]

end Chunk

namespace Instruction

theorem parseOnto_cons (acc : List Instruction) (offset : Nat) (op : Opcode) (rest : Bytes) :
    parseOnto acc offset (op :: rest) =
      if rest.length < pushLengthWidth op then .error ⟨.truncatedLength, offset⟩
      else if rest.length < pushLengthWidth op + announced op rest then .error ⟨.pastEnd, offset⟩
      else
        parseOnto (⟨op, (rest.drop (pushLengthWidth op)).take (announced op rest)⟩ :: acc)
          (offset + 1 + pushLengthWidth op + announced op rest)
          (rest.drop (pushLengthWidth op + announced op rest)) := by
  rw [parseOnto, extent_eq]
  by_cases hfield : rest.length < pushLengthWidth op
  · simp only [if_pos hfield]
  · simp only [if_neg hfield, List.length_take, List.length_drop]
    split_ifs with hdata hpast hpast
    · rfl
    · omega
    · omega
    · rfl

end Instruction

namespace Chunk

open Instruction (parse parseOnto parseOnto_cons)

/-- Both readers cut the same bytes at the same places, or both refuse them. -/
theorem decodeOnto_eq (acc : List Instruction) (offset : Nat) (bs : Bytes) :
    decodeOnto (acc.map Instruction.chunk) bs =
      match parseOnto acc offset bs with
      | .ok is => .ok (is.map Instruction.chunk)
      | .error _ => .error .truncatedPush := by
  induction hn : bs.length using Nat.strong_induction_on generalizing acc offset bs with
  | _ n ih =>
    cases bs with
    | nil => simp only [decodeOnto, parseOnto, List.map_reverse]
    | cons op rest =>
        rw [decodeOnto_cons, read_eq, parseOnto_cons]
        by_cases hpast : rest.length < pushLengthWidth op + announced op rest
        · rw [if_pos hpast]
          by_cases hfield : rest.length < pushLengthWidth op
          · rw [if_pos hfield]
          · rw [if_neg hfield, if_pos hpast]
        · have hfield : ¬rest.length < pushLengthWidth op := by omega
          rw [if_neg hpast, if_neg hfield, if_neg hpast]
          dsimp only
          rw [← List.map_cons]
          refine ih _ ?_ _ _ _ rfl
          rw [← hn, List.length_drop, List.length_cons]
          omega

theorem decode_eq (bs : Bytes) :
    decode bs =
      match parse bs with
      | .ok is => .ok (is.map Instruction.chunk)
      | .error _ => .error .truncatedPush := decodeOnto_eq [] 0 bs

theorem flatMap_encode_map_chunk {is : List Instruction} (h : ∀ i ∈ is, i.Fits) :
    (is.map Instruction.chunk).flatMap encode = is.flatMap Instruction.encode := by
  rw [List.flatMap_map]
  refine List.flatMap_congr fun i hi => ?_
  rw [← encode_instruction, Instruction.instruction_chunk (h i hi)]

/-- Reading chunks inverts writing them, on exactly the lists that can stand in a script. -/
theorem decode_eq_ok_iff {bs : Bytes} {cs : List Chunk} :
    decode bs = .ok cs ↔ (∀ c ∈ cs, c.WellFormed) ∧ bs = cs.flatMap encode := by
  rw [decode_eq]
  constructor
  · intro h
    cases hparse : parse bs with
    | error e =>
        rw [hparse] at h
        cases h
    | ok is =>
        rw [hparse] at h
        cases h
        obtain ⟨hfits, hbytes⟩ := Instruction.parse_eq_ok_iff.mp hparse
        refine ⟨?_, hbytes.trans (flatMap_encode_map_chunk hfits).symm⟩
        simpa using fun i hi => Instruction.wellFormed_chunk (hfits i hi)
  · rintro ⟨hformed, rfl⟩
    have hparse : parse (cs.flatMap encode) = .ok (cs.map instruction) := by
      refine Instruction.parse_eq_ok_iff.mpr ⟨?_, ?_⟩
      · simpa using fun c hc => (hformed c hc).fits
      · rw [List.flatMap_map]
        rfl
    rw [hparse]
    refine congrArg Except.ok ?_
    calc (cs.map instruction).map Instruction.chunk
        = cs.map (Instruction.chunk ∘ instruction) := List.map_map
      _ = cs.map id := List.map_congr_left fun c hc => (hformed c hc).chunk_instruction
      _ = cs := List.map_id cs

theorem read_of_wellFormed {c : Chunk} (h : c.WellFormed) (rest : Bytes) :
    read c.op (Bytes.toLE (pushLengthWidth c.op) c.payload.length ++ (c.payload ++ rest)) =
      .ok (c, rest) := by
  have hannounced : announced c.op
      (Bytes.toLE (pushLengthWidth c.op) c.payload.length ++ (c.payload ++ rest)) =
        c.payload.length := Instruction.announced_of_fits h.fits (c.payload ++ rest)
  have hchunk : Instruction.chunk ⟨c.op, c.payload⟩ = c := h.chunk_instruction
  have hlong : ¬(Bytes.toLE (pushLengthWidth c.op) c.payload.length ++
      (c.payload ++ rest)).length < pushLengthWidth c.op + c.payload.length := by
    simp only [List.length_append, Bytes.length_toLE]
    omega
  rw [read_eq, hannounced, if_neg hlong, ← List.drop_drop, Bytes.drop_toLE_append,
    List.take_left, List.drop_left, hchunk]

theorem first_encode_append {c : Chunk} (h : c.WellFormed) (rest : Bytes) :
    first (c.encode ++ rest) = .ok (some c) := by
  rw [encode, Instruction.pushLengthField_eq, List.cons_append, List.append_assoc, first,
    read_of_wellFormed h]

theorem first_flatMap_encode {cs : List Chunk} (h : ∀ c ∈ cs, c.WellFormed) :
    first (cs.flatMap encode) = .ok cs.head? := by
  cases cs with
  | nil => rfl
  | cons c cs =>
      rw [List.flatMap_cons, first_encode_append (h c List.mem_cons_self), List.head?_cons]

/-- The reader moves on with every chunk, so there are no more chunks than bytes. -/
theorem length_le_length_flatMap_encode (cs : List Chunk) :
    cs.length ≤ (cs.flatMap encode).length := by
  induction cs with
  | nil => exact Nat.le_refl 0
  | cons c cs ih =>
      rw [List.flatMap_cons, List.length_append, List.length_cons, encode, List.length_cons]
      omega

end Chunk

/-! ## Where reading fails -/

/-- The bytes begin with chunks that can be read, and the push at the offset behind them runs past
the end. -/
inductive BreaksOff : Bytes → Nat → Prop
  | intro (before : List Chunk) (op : Opcode) (rest : Bytes)
      (hformed : ∀ c ∈ before, c.WellFormed) (hpast : RunsPast op rest) :
      BreaksOff (before.flatMap Chunk.encode ++ op :: rest) (before.flatMap Chunk.encode).length

namespace Instruction

theorem parseOnto_flatMap_append {is : List Instruction} (h : ∀ i ∈ is, i.Fits)
    (acc : List Instruction) (offset : Nat) (rest : Bytes) :
    parseOnto acc offset (is.flatMap encode ++ rest) =
      parseOnto (is.reverse ++ acc) (offset + (is.flatMap encode).length) rest := by
  induction is generalizing acc offset with
  | nil => rfl
  | cons i is ih =>
      obtain ⟨hi, his⟩ := List.forall_mem_cons.mp h
      rw [List.flatMap_cons, List.append_assoc, parseOnto_encode hi, ih his, List.length_append,
        List.reverse_cons, List.append_assoc, Nat.add_assoc]
      rfl

theorem parseOnto_of_runsPast {op : Opcode} {rest : Bytes} (h : RunsPast op rest)
    (acc : List Instruction) (offset : Nat) :
    ∃ defect, parseOnto acc offset (op :: rest) = .error ⟨defect, offset⟩ := by
  rw [parseOnto_cons, if_pos (runsPast_iff.mp h)]
  split_ifs
  · exact ⟨_, rfl⟩
  · exact ⟨_, rfl⟩

theorem runsPast_of_parseOnto {acc : List Instruction} {offset : Nat} {bs : Bytes}
    {e : ParseError} (h : parseOnto acc offset bs = .error e) :
    ∃ (before : List Instruction) (op : Opcode) (rest : Bytes), (∀ i ∈ before, i.Fits) ∧
      bs = before.flatMap encode ++ op :: rest ∧ RunsPast op rest ∧
      e.offset = offset + (before.flatMap encode).length := by
  induction acc, offset, bs using parseOnto.induct with
  | case1 acc offset =>
      rw [parseOnto] at h
      cases h
  | case2 acc offset op rest defect hextent =>
      rw [parseOnto, hextent] at h
      cases h
      refine ⟨[], op, rest, by simp, rfl, ?_, rfl⟩
      rw [extent_eq] at hextent
      split_ifs at hextent with hfield
      exact .field hfield
  | case3 acc offset op rest width length hextent data hshort =>
      rw [parseOnto, hextent] at h
      simp only [if_pos hshort, data] at h
      cases h
      refine ⟨[], op, rest, by simp, rfl, ?_, rfl⟩
      rw [extent_eq] at hextent
      split_ifs at hextent with hfield
      cases hextent
      simp only [data, List.length_take, List.length_drop] at hshort
      exact .data (by omega)
  | case4 acc offset op rest width length hextent data hlong ih =>
      rw [parseOnto, hextent] at h
      simp only [if_neg hlong, data] at h
      obtain ⟨before, op', rest', hbefore, hrest, hpast, hoffset⟩ := ih h
      obtain ⟨hfits, hbytes⟩ := fits_of_extent hextent hlong
      refine ⟨⟨op, data⟩ :: before, op', rest', ?_, ?_, hpast, ?_⟩
      · exact List.forall_mem_cons.mpr ⟨hfits, hbefore⟩
      · rw [hbytes, hrest, List.flatMap_cons, List.append_assoc]
      · have hlength : (encode ⟨op, data⟩).length = 1 + width + length := by
          have hdata : data.length = length :=
            Nat.le_antisymm (List.length_take_le _ _) (Nat.le_of_not_lt hlong)
          rw [length_encode, hdata]
          rw [extent_eq] at hextent
          split_ifs at hextent
          cases hextent
          rfl
        rw [hoffset, List.flatMap_cons, List.length_append, hlength]
        omega

/-- Parsing fails exactly where a push runs past the end. -/
theorem parse_eq_error_iff {bs : Bytes} {offset : Nat} :
    (∃ defect, parse bs = .error ⟨defect, offset⟩) ↔ BreaksOff bs offset := by
  constructor
  · rintro ⟨defect, h⟩
    obtain ⟨before, op, rest, hfits, rfl, hpast, hoffset⟩ := runsPast_of_parseOnto h
    rw [Nat.zero_add] at hoffset
    dsimp only at hoffset
    rw [hoffset, ← Chunk.flatMap_encode_map_chunk hfits]
    refine .intro (before.map chunk) op rest ?_ hpast
    simpa using fun i hi => wellFormed_chunk (hfits i hi)
  · rintro ⟨before, op, rest, hformed, hpast⟩
    have hbytes : before.flatMap Chunk.encode =
        (before.map Chunk.instruction).flatMap encode := by
      rw [List.flatMap_map]
      rfl
    have hfits : ∀ i ∈ before.map Chunk.instruction, i.Fits := by
      simpa using fun c hc => (hformed c hc).fits
    rw [parse, hbytes, parseOnto_flatMap_append hfits, Nat.zero_add]
    exact parseOnto_of_runsPast hpast _ _

end Instruction

theorem Chunk.decode_eq_error_iff {bs : Bytes} {e : ScriptError} :
    decode bs = .error e ↔ e = .truncatedPush ∧ ∃ offset, BreaksOff bs offset := by
  rw [decode_eq]
  cases hparse : Instruction.parse bs with
  | ok is =>
      have hunbroken : ∀ offset, ¬BreaksOff bs offset := by
        intro offset hbreaks
        obtain ⟨defect, herror⟩ := Instruction.parse_eq_error_iff.mpr hbreaks
        rw [hparse] at herror
        cases herror
      simp [hunbroken]
  | error cause =>
      have hbreaks : BreaksOff bs cause.offset :=
        Instruction.parse_eq_error_iff.mp ⟨cause.defect, hparse⟩
      simp only [Except.error.injEq]
      exact ⟨fun he => ⟨he.symm, _, hbreaks⟩, fun he => he.1.symm⟩

/-! ## The two readers of a script agree -/

structure ReadAlike (s : Script) : Prop where
  accepted : (∃ cs, s.chunks = .ok cs) ↔ ∃ is, s.instructions = .ok is
  same : ∀ cs is, s.chunks = .ok cs → s.instructions = .ok is →
    List.Forall₂ (fun c i => c.op = i.op ∧ c.payload = i.data) cs is
  chunks_encode : ∀ cs, s.chunks = .ok cs →
    cs.flatMap Chunk.encode = s.bytes ∧ cs.length ≤ s.size
  instructions_encode : ∀ is, s.instructions = .ok is → Instruction.unparse is = s
  first : ∀ cs, s.chunks = .ok cs → s.firstChunk = .ok cs.head?
  refused : ∀ e, s.chunks = .error e ↔ e = .truncatedPush ∧ ∃ offset, BreaksOff s.bytes offset
  /-- Instructions are refused only for a push that runs past the end, and the error says where the
  push begins. -/
  malformed : ∀ offset, (∃ defect, s.instructions = .error ⟨defect, offset⟩) ↔
    BreaksOff s.bytes offset

theorem readAlike (s : Script) : ReadAlike s := by
  have hdecode := Chunk.decode_eq s.bytes
  have hsame : ∀ {is}, s.instructions = .ok is → s.chunks = .ok (is.map Instruction.chunk) :=
    fun {is} his => by
      rw [Script.chunks, hdecode, show Instruction.parse s.bytes = .ok is from his]
  have hchunks : ∀ {cs}, s.chunks = .ok cs →
      ∃ is, s.instructions = .ok is ∧ cs = is.map Instruction.chunk := by
    intro cs hcs
    cases his : s.instructions with
    | ok is =>
        refine ⟨is, rfl, ?_⟩
        have h := hsame his
        rw [hcs] at h
        exact Except.ok.inj h
    | error e =>
        rw [Script.chunks, hdecode, show Instruction.parse s.bytes = .error e from his] at hcs
        cases hcs
  constructor
  case accepted =>
    constructor
    · rintro ⟨cs, hcs⟩
      obtain ⟨is, his, -⟩ := hchunks hcs
      exact ⟨is, his⟩
    · rintro ⟨is, his⟩
      exact ⟨_, hsame his⟩
  case same =>
    intro cs is hcs his
    obtain ⟨js, hjs, rfl⟩ := hchunks hcs
    rw [his] at hjs
    cases hjs
    obtain ⟨hfits, -⟩ := Instruction.parse_eq_ok_iff.mp his
    rw [List.forall₂_map_left_iff, List.forall₂_same]
    intro i hi
    exact ⟨rfl, congrArg Instruction.data (Instruction.instruction_chunk (hfits i hi))⟩
  case chunks_encode =>
    intro cs hcs
    obtain ⟨-, hbytes⟩ := Chunk.decode_eq_ok_iff.mp hcs
    refine ⟨hbytes.symm, ?_⟩
    rw [Script.size, hbytes]
    exact Chunk.length_le_length_flatMap_encode cs
  case instructions_encode =>
    intro is his
    obtain ⟨-, hbytes⟩ := Instruction.parse_eq_ok_iff.mp his
    rw [Instruction.unparse, ← hbytes]
  case first =>
    intro cs hcs
    obtain ⟨hformed, hbytes⟩ := Chunk.decode_eq_ok_iff.mp hcs
    rw [Script.firstChunk, hbytes]
    exact Chunk.first_flatMap_encode hformed
  case refused => exact fun e => Chunk.decode_eq_error_iff
  case malformed => exact fun offset => Instruction.parse_eq_error_iff

/-- Both readers accept the same scripts and read them alike, and reading chunks inverts writing
them. -/
theorem chunks_and_instructions_agree :
    (∀ s : Script, ReadAlike s) ∧
      ∀ cs : List Chunk, (∀ c ∈ cs, c.WellFormed) →
        (Script.mk (cs.flatMap Chunk.encode)).chunks = .ok cs :=
  ⟨readAlike, fun _ hformed => Chunk.decode_eq_ok_iff.mpr ⟨hformed, rfl⟩⟩

/-- One byte pushed in all four ways, between opcodes without data, and a length field cut short. -/
theorem chunks_and_instructions_agree_pushes :
    (Script.mk [0x00, 0x01, 0x07, 0x4c, 0x01, 0x07, 0x4d, 0x01, 0x00, 0x07,
      0x4e, 0x01, 0x00, 0x00, 0x00, 0x07, 0xac]).chunks =
        .ok [⟨0x00, none⟩, ⟨0x01, some [0x07]⟩, ⟨0x4c, some [0x07]⟩, ⟨0x4d, some [0x07]⟩,
          ⟨0x4e, some [0x07]⟩, ⟨0xac, none⟩] ∧
      (Script.mk [0x01, 0x07, 0x4d, 0x01]).chunks = .error .truncatedPush := by
  constructor
  · refine chunks_and_instructions_agree.2 [⟨0x00, none⟩, ⟨0x01, some [0x07]⟩,
      ⟨0x4c, some [0x07]⟩, ⟨0x4d, some [0x07]⟩, ⟨0x4e, some [0x07]⟩, ⟨0xac, none⟩] ?_
    simp only [List.forall_mem_cons, List.not_mem_nil, false_imp_iff, implies_true, and_true]
    exact ⟨.bare (by decide), .direct (by decide) (by decide) (by decide),
      .counted (by decide) (by decide), .counted (by decide) (by decide),
      .counted (by decide) (by decide), .bare (by decide)⟩
  · refine ((chunks_and_instructions_agree.1 _).refused _).mpr ⟨rfl, 2, ?_⟩
    refine .intro [⟨0x01, some [0x07]⟩] 0x4d [0x01] ?_ (.field (by decide))
    simpa using Chunk.WellFormed.direct (by decide) (by decide) (by decide)

end UtxoSpend
