import Mathlib
import UtxoSpend.Proofs.Machine.PushOnly

/-!
# Canonical pushes

Scripts are built with the shortest push of their data, and the rule for minimal data demands the
same of scripts that are run.  The builder chooses the opcode from the length, the rule tests the
length against the opcode; only the rule knows that some bytes have opcodes of their own.  Main
statement: both mean the same push, which is shorter than every other push of its data.
-/

namespace UtxoSpend

open Exec

structure Chunk.Pushes (c : Chunk) (data : Bytes) : Prop where
  wellFormed : c.WellFormed
  isPush : c.isPush = true
  payload : c.payload = data

/-- A push as it is appended to a script, of data that no number opcode pushes. -/
structure Instruction.IsCanonical (i : Instruction) : Prop where
  appended : Script.empty.appendPush i.data = .ok ⟨i.encode⟩
  plain : ¬∃ b, i.data = [b] ∧ (1 ≤ b ∧ b ≤ 16 ∨ b = 0x81)

/-! ## Appending -/

namespace Chunk

theorem Pushes.instruction {c : Chunk} {data : Bytes} (h : c.Pushes data) :
    c.instruction.Fits ∧ c.instruction.op.isPush = true ∧ c.instruction.data = data :=
  ⟨h.wellFormed.fits, h.isPush, h.payload⟩

theorem pushes_push {data : Bytes} (h : data.length ≤ 0xffffffff) :
    (Instruction.push data).chunk.Pushes data := by
  have hfits := Instruction.fits_push h
  refine ⟨Instruction.wellFormed_chunk hfits, Instruction.isPush_push data, ?_⟩
  exact congrArg Instruction.data (Instruction.instruction_chunk hfits)

theorem Pushes.longer {c : Chunk} {data : Bytes} (h : c.Pushes data)
    (hne : c ≠ (Instruction.push data).chunk) :
    (Instruction.push data).encode.length < c.encode.length := by
  obtain ⟨hfits, hpush, rfl⟩ := h.instruction
  obtain heq | hlonger := Instruction.eq_push_or_longer hfits hpush
  · refine absurd ?_ hne
    rw [← heq, h.wellFormed.chunk_instruction]
  · exact hlonger

end Chunk

namespace Script

/-- The script that decodes to `cs` decodes with one chunk more after data was appended: the one
that pushes the data with the fewest bytes. -/
theorem appendPush_shortest {s : Script} {cs : List Chunk} {data : Bytes} (hs : s.chunks = .ok cs)
    (hdata : data.length ≤ 0xffffffff) :
    ∃ t c, s.appendPush data = .ok t ∧ t.chunks = .ok (cs ++ [c]) ∧
      t.instructions = s.instructions.map (· ++ [c.instruction]) ∧ c.Pushes data ∧
      ∀ c' : Chunk, c'.Pushes data → c' ≠ c → c.encode.length < c'.encode.length := by
  have hpushes := Chunk.pushes_push hdata
  have happend := appendPush_eq s hdata
  have hinstruction := Instruction.instruction_chunk (Instruction.fits_push hdata)
  obtain ⟨is, his⟩ := (readAlike s).accepted.mp ⟨cs, hs⟩
  refine ⟨_, _, happend, ?_, ?_, hpushes, ?_⟩
  · obtain ⟨hformed, hbytes⟩ := Chunk.decode_eq_ok_iff.mp hs
    refine Chunk.decode_eq_ok_iff.mpr ⟨?_, ?_⟩
    · intro c hc
      rcases List.mem_append.mp hc with hc | hc
      · exact hformed c hc
      · exact List.mem_singleton.mp hc ▸ hpushes.wellFormed
    · rw [List.flatMap_append, ← hbytes, List.flatMap_singleton, ← Chunk.encode_instruction,
        hinstruction]
  · rw [instructions_appendPush his happend, his, hinstruction]
    rfl
  · intro c' hc' hne
    rw [← Chunk.encode_instruction, hinstruction]
    exact hc'.longer hne

end Script

/-! ## Running -/

namespace Instruction

/-- The machine's test for minimal pushes finds out those that scripts are built with, less the
bytes that have opcodes of their own. -/
theorem isMinimalPush_iff_isCanonical {i : Instruction} (hfits : i.Fits)
    (hpush : i.op.isPush = true) : i.isMinimalPush = true ↔ i.IsCanonical := by
  have happend := Script.appendPush_eq .empty hfits.length_le
  have happended : Script.empty.appendPush i.data = .ok ⟨i.encode⟩ ↔ i = push i.data := by
    rw [happend]
    constructor
    · intro h
      have hencode : (push i.data).encode = i.encode := congrArg Script.bytes (Except.ok.inj h)
      have hop : pushOpcode i.data.length = i.op := (List.cons.inj hencode).1
      rw [push, hop]
    · intro h
      rw [← h]
      rfl
  rw [isMinimalPush_iff hfits hpush, ← happended]
  exact ⟨fun h => ⟨h.1, h.2⟩, fun h => ⟨h.appended, h.plain⟩⟩

end Instruction

namespace Exec

variable {env : Env} {script : List Instruction} {offset : Nat} {i : Instruction} {s t : State}

theorem execute_push_of_minimalData (hpush : i.op.isPush = true)
    (hrule : env.has .minimalData = true) (hexecuting : s.isExecuting = true) :
    execute env script offset i s =
      if env.limits.elementSize < i.data.length then
        .error (.elementTooBig i.data.length env.limits.elementSize) s
      else if i.isMinimalPush then .ok () { s with data := i.data :: s.data }
      else .error (.wastefulPush i.op) s := by
  rw [execute_of_pushOnly (le_number16_of_isPush hpush) hexecuting, pushedItem_of_isPush hpush,
    hrule, Bool.true_and]
  by_cases hsize : env.limits.elementSize < i.data.length
  · rw [if_pos hsize, if_pos hsize]
  · rw [if_neg hsize, if_neg hsize]
    cases i.isMinimalPush <;> rfl

end Exec

/-- A push is tested for its canonical form, and under the rule for minimal data it is executed in
no other form. -/
structure Instruction.RunIfCanonical (i : Instruction) : Prop where
  tested : i.isMinimalPush = true ↔ i.IsCanonical
  accepted : ∀ (env : Env) (script : List Instruction) (offset : Nat) (s t : State),
    env.has .minimalData = true → s.isExecuting = true →
      (execute env script offset i s = .ok () t ↔
        i.data.length ≤ env.limits.elementSize ∧ i.IsCanonical ∧
          t = { s with data := i.data :: s.data })
  refused : ∀ (env : Env) (script : List Instruction) (offset : Nat) (s : State),
    env.has .minimalData = true → s.isExecuting = true →
      i.data.length ≤ env.limits.elementSize → ¬i.IsCanonical →
        execute env script offset i s = .error (.wastefulPush i.op) s

theorem Instruction.runIfCanonical {i : Instruction} (hfits : i.Fits)
    (hpush : i.op.isPush = true) : i.RunIfCanonical := by
  have htested := isMinimalPush_iff_isCanonical hfits hpush
  constructor
  case tested => exact htested
  case accepted =>
    intro env script offset s t hrule hexecuting
    rw [execute_push_of_minimalData hpush hrule hexecuting, ← htested]
    by_cases hsize : env.limits.elementSize < i.data.length
    · simp [hsize, Nat.not_le.mpr hsize]
    · cases i.isMinimalPush <;> simp [hsize, Nat.le_of_not_lt hsize, eq_comm]
  case refused =>
    intro env script offset s hrule hexecuting hsize hwasteful
    rw [execute_push_of_minimalData hpush hrule hexecuting, if_neg (Nat.not_lt.mpr hsize),
      if_neg (mt htested.mp hwasteful)]

/-- Appending data to a script that decodes appends one chunk, the shortest of those that push the
data, and the pushes that the rule for minimal data accepts are the appended ones, less the bytes
that have opcodes of their own. -/
theorem Script.pushes_canonical :
    (∀ (s : Script) (cs : List Chunk) (data : Bytes),
      s.chunks = .ok cs → data.length < 2 ^ 32 →
        ∃ t c, s.appendPush data = .ok t ∧ t.chunks = .ok (cs ++ [c]) ∧
          t.instructions = s.instructions.map (· ++ [c.instruction]) ∧ c.Pushes data ∧
          ∀ c' : Chunk, c'.Pushes data → c' ≠ c → c.encode.length < c'.encode.length) ∧
      ∀ (s : Script) (is : List Instruction) (i : Instruction),
        s.instructions = .ok is → i ∈ is → i.op.isPush = true → i.RunIfCanonical := by
  constructor
  · intro s cs data hs hdata
    exact appendPush_shortest hs (Nat.le_of_lt_succ hdata)
  · intro s is i his hi hpush
    exact Instruction.runIfCanonical ((Instruction.parse_eq_ok_iff.mp his).1 i hi) hpush

/-- Seventy-six bytes are pushed with a length field of one byte; the byte seven has an opcode of
its own. -/
theorem Script.pushes_canonical_lengthField :
    (Script.mk [0xac]).chunks = .ok [⟨0xac, none⟩] ∧
      (List.replicate 76 (7 : UInt8)).length < 2 ^ 32 ∧
      (∃ t, (Script.mk [0xac]).appendPush (List.replicate 76 7) = .ok t ∧
        t.chunks = .ok [⟨0xac, none⟩, ⟨0x4c, some (List.replicate 76 7)⟩]) ∧
      (Script.mk [0x01, 0x07]).instructions = .ok [⟨0x01, [0x07]⟩] ∧
      Instruction.isMinimalPush ⟨0x01, [0x07]⟩ = false ∧
      execute ⟨.minimalData, {}, none, 0⟩ [] 0 ⟨0x01, [0x07]⟩ {} =
        .error (.wastefulPush 0x01) {} := by
  have hchunks : (Script.mk [0xac]).chunks = .ok [⟨0xac, none⟩] := by decide +kernel
  have hshort : (List.replicate 76 (7 : UInt8)).length < 2 ^ 32 := by decide
  have hseven : (Script.mk [0x01, 0x07]).instructions = .ok [⟨0x01, [0x07]⟩] := by decide +kernel
  obtain ⟨happends, hruns⟩ := pushes_canonical
  obtain ⟨t, c, happend, hdecodes, -, -, hshortest⟩ := happends _ _ _ hchunks hshort
  have hrun := hruns _ _ _ hseven (List.mem_singleton_self _) rfl
  have hwasteful : ¬Instruction.IsCanonical ⟨0x01, [0x07]⟩ :=
    fun h => h.plain ⟨0x07, rfl, .inl (by decide)⟩
  refine ⟨hchunks, hshort, ⟨t, happend, ?_⟩, hseven, ?_, ?_⟩
  · cases happend
    decide +kernel
  · exact Bool.eq_false_iff.mpr (mt hrun.tested.mp hwasteful)
  · exact hrun.refused _ _ _ _ rfl rfl (by decide) hwasteful

end UtxoSpend
