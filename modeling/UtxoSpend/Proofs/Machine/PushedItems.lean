import Mathlib
import UtxoSpend.Bytes.Lemmas
import UtxoSpend.Proofs.Machine.PayToScriptHash
import UtxoSpend.Proofs.Machine.PushOnly
import UtxoSpend.Proofs.Machine.Reach
import UtxoSpend.Proofs.Script.Chunks

/-!
# What scripts that only push leave on the stack

Two tests tell whether a script only pushes: one looks at the chunks of a script, the other, which
guards redeem scripts, at its instructions.  The second lets the reserved opcode between the numbers
pass, though no machine runs it.  Main statement: that opcode is all that the tests differ in, and
a script that passes the stricter one runs without failure and leaves one item an instruction.
-/

namespace UtxoSpend

/-! ## Opcodes up to the number sixteen -/

namespace Opcode

def reserved : Opcode := 0x50

def numeral (op : Opcode) : Bytes := if op = negative1 then [0x81] else [op - number1 + 1]

theorem pushesData_or_number_iff (op : Opcode) :
    (op.isPush || op == negative1 || op.isSmallNumber) = true ↔ op ≤ number16 ∧ op ≠ reserved := by
  simp only [isPush, isSmallNumber, pushData4, negative1, number1, number16, reserved,
    Bool.or_eq_true, Bool.and_eq_true, beq_iff_eq]
  grind

theorem action_of_numeral {op : Opcode} (hop : op ≤ number16) (hmeaning : op ≠ reserved)
    (hdata : op.isPush = false) : op.action = .stack (.push op.numeral) :=
  forall_byte (p := fun op => op ≤ number16 → op ≠ reserved → isPush op = false →
    action op = .stack (.push (numeral op))) (by decide +kernel) op hop hmeaning hdata

end Opcode

/-! ## The two tests -/

/-- The test of chunks is the test of instructions without the reserved opcode. -/
theorem Script.isPushOnly_iff (s : Script) :
    s.isPushOnly = true ↔ ∃ is, s.instructions = .ok is ∧ Instruction.isPushOnly is = true ∧
      ∀ i ∈ is, i.op ≠ Opcode.reserved := by
  rw [isPushOnly, chunks, Chunk.decode_eq, instructions]
  cases hparse : Instruction.parse s.bytes with
  | error e => simp
  | ok is =>
      have hchunk : ∀ i : Instruction, (i.chunk.isPush || i.chunk.op == Opcode.negative1 ||
          i.chunk.op.isSmallNumber) = true ↔ i.op ≤ Opcode.number16 ∧ i.op ≠ Opcode.reserved :=
        fun i => Opcode.pushesData_or_number_iff i.op
      simp [Instruction.isPushOnly, hchunk, forall_and]

/-! ## The items -/

def Instruction.item (i : Instruction) : Bytes := if i.op.isPush then i.data else i.op.numeral

namespace Exec

variable {env : Env} {is : List Instruction}

theorem pushedItem_eq_item {i : Instruction} (hminimal : env.has .minimalData = false)
    (hop : i.op ≤ Opcode.number16) (hmeaning : i.op ≠ Opcode.reserved)
    (hsize : i.data.length ≤ env.limits.elementSize) : pushedItem env i = .ok i.item := by
  rw [pushedItem, Instruction.item, if_neg (Nat.not_lt.mpr hsize), hminimal]
  cases hdata : i.op.isPush with
  | true =>
      have haction : i.op.action = .pushData := by
        rw [Opcode.action, if_pos (of_decide_eq_true hdata)]
      rw [haction]
      rfl
  | false =>
      rw [Opcode.action_of_numeral hop hmeaning hdata]
      rfl

theorem pushItems_eq_items (hminimal : env.has .minimalData = false)
    (hpush : Instruction.isPushOnly is = true) (hmeaning : ∀ i ∈ is, i.op ≠ Opcode.reserved)
    (hsize : ∀ i ∈ is, i.data.length ≤ env.limits.elementSize) (data : Stack) :
    pushItems env is data = .ok () ((is.map Instruction.item).reverse ++ data) := by
  induction is generalizing data with
  | nil => rfl
  | cons i is ih =>
      simp only [Instruction.isPushOnly, List.all_cons, Bool.and_eq_true,
        decide_eq_true_eq] at hpush
      rw [List.forall_mem_cons] at hmeaning hsize
      rw [pushItems, pushedItem_eq_item hminimal hpush.1 hmeaning.1 hsize.1]
      dsimp only
      rw [ih hpush.2 hmeaning.2 hsize.2, List.map_cons, List.reverse_cons, List.append_assoc]
      rfl

theorem runScript_eq_items (hminimal : env.has .minimalData = false)
    (hpush : Instruction.isPushOnly is = true) (hmeaning : ∀ i ∈ is, i.op ≠ Opcode.reserved)
    (hsize : ∀ i ∈ is, i.data.length ≤ env.limits.elementSize)
    (hroom : is.length ≤ env.limits.stackItems) :
    runScript env is {} = .ok () { data := (is.map Instruction.item).reverse } := by
  rw [runScript_of_pushOnly hpush hroom, pushItems_eq_items hminimal hpush hmeaning hsize,
    List.append_nil]

end Exec

namespace Machine

open Exec

/-- The unlocking script has ended: the machine is past it, and past an empty locking script, with
the items on the stack, the last one on top, and nothing else. -/
structure HasPushed (locking : Script) (items : List Bytes) (m : Machine) : Prop where
  script : m.scriptIndex = if locking.isEmpty then 2 else 1
  offset : m.offset = 0
  state : m.state = { data := items.reverse }

theorem hasPushed_of_atLocking {m : Machine} {first second : List Instruction} {locking : Script}
    (hscripts : m.scripts = [first, second]) (hindex : m.scriptIndex = 0)
    (hparse : locking.instructions = .ok second) (items : List Bytes) :
    HasPushed locking items (m.atLocking { data := items.reverse }).skipEmpty := by
  constructor
  case script =>
    rw [isEmpty_eq hparse]
    cases second <;> simp [skipEmpty, atLocking, entering, hscripts, hindex]
  case offset =>
    obtain heq | heq := skipEmpty_eq (m.atLocking { data := items.reverse }) <;> rw [heq] <;> rfl
  case state => exact state_skipEmpty _

/-- The two tests for scripts that only push differ in the reserved opcode alone, and an unlocking
script that passes the stricter one gets to its end without failure, one item an instruction being
left in their order. -/
theorem pushOnly_leaves_items :
    (∀ s : Script, s.isPushOnly = true ↔
      ∃ is, s.instructions = .ok is ∧ Instruction.isPushOnly is = true ∧
        ∀ i ∈ is, i.op ≠ Opcode.reserved) ∧
    ∀ (env : Env) (unlocking locking : Script) (is : List Instruction) (m : Machine),
      unlocking.isEmpty = false → unlocking.isPushOnly = true →
      unlocking.instructions = .ok is →
      (∀ i ∈ is, i.data.length ≤ env.limits.elementSize) →
      is.length ≤ env.limits.stackItems →
      env.has .minimalData = false → start env unlocking locking = .ok m →
      ∃ m', steps env is.length m = .ok locking.isEmpty m' ∧
        HasPushed locking (is.map Instruction.item) m' := by
  refine ⟨Script.isPushOnly_iff, ?_⟩
  intro env unlocking locking is m hnonempty hstrict his hsize hroom hminimal hstart
  obtain ⟨first, second, hstartable, rfl⟩ := start_eq_ok_iff.mp hstart
  obtain ⟨js, hjs, hpush, hmeaning⟩ := (Script.isPushOnly_iff unlocking).mp hstrict
  cases his.symm.trans hstartable.unlockingParses
  cases his.symm.trans hjs
  have hindex : (initial env unlocking locking is second).scriptIndex = 0 :=
    if_neg (by simp [hnonempty])
  have hne : is ≠ [] := by
    rw [isEmpty_eq his] at hnonempty
    exact List.isEmpty_eq_false_iff.mp hnonempty
  have hrun := runScript_eq_items hminimal hpush hmeaning hsize hroom
  have hsteps := steps_past_first rfl hindex rfl hne hrun
  rw [← isEmpty_eq hstartable.lockingParses] at hsteps
  exact ⟨_, hsteps, hasPushed_of_atLocking rfl hindex hstartable.lockingParses _⟩

/-- The empty push, a direct one, both kinds of numbers, and a push with a length field that it does
not need. -/
def mixedPushes : Script := ⟨[0x00, 0x01, 0x07, 0x4f, 0x60, 0x4c, 0x01, 0x05]⟩

theorem pushOnly_leaves_items_mixedPushes :
    (∃ m m', start trustingEnv mixedPushes ⟨[0x51]⟩ = .ok m ∧
      steps trustingEnv 5 m = .ok false m' ∧
      m'.state = { data := [[0x05], [0x10], [0x81], [0x07], []] }) ∧
    (Script.mk [0x50]).isPushOnly = false ∧ Instruction.isPushOnly [⟨0x50, []⟩] = true := by
  have hunlocking : mixedPushes.instructions =
      .ok [⟨0x00, []⟩, ⟨0x01, [0x07]⟩, ⟨0x4f, []⟩, ⟨0x60, []⟩, ⟨0x4c, [0x05]⟩] :=
    Instruction.parse_eq_ok_iff.mpr ⟨by decide, rfl⟩
  have hlocking : (Script.mk [0x51]).instructions = .ok [⟨0x51, []⟩] :=
    Instruction.parse_eq_ok_iff.mpr ⟨by decide, rfl⟩
  have hreserved : (Script.mk [0x50]).instructions = .ok [⟨0x50, []⟩] :=
    Instruction.parse_eq_ok_iff.mpr ⟨by decide, rfl⟩
  have hstartable : Startable trustingEnv mixedPushes ⟨[0x51]⟩ _ _ :=
    ⟨by decide, by decide, by decide, by decide, hunlocking, hlocking, by decide, by decide⟩
  have hstart := start_eq_ok_iff.mpr ⟨_, _, hstartable, rfl⟩
  refine ⟨?_, ?_, by decide⟩
  · have hstrict := (pushOnly_leaves_items.1 mixedPushes).mpr
      ⟨_, hunlocking, by decide, by decide⟩
    obtain ⟨m', hsteps, hpushed⟩ := pushOnly_leaves_items.2 trustingEnv mixedPushes ⟨[0x51]⟩ _ _
      rfl hstrict hunlocking (by decide) (by decide) (by decide) hstart
    exact ⟨_, m', hstart, hsteps, hpushed.state⟩
  · rw [Bool.eq_false_iff]
    intro hstrict
    obtain ⟨is, his, -, hmeaning⟩ := (pushOnly_leaves_items.1 _).mp hstrict
    cases hreserved.symm.trans his
    exact hmeaning ⟨0x50, []⟩ (by simp) rfl

end Machine

end UtxoSpend
