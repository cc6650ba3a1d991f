import Mathlib
import UtxoSpend.Proofs.Machine.Run
import UtxoSpend.Proofs.Script.Nesting

/-!
# Open conditionals along a run

The machine keeps a list of the conditionals that are open, and the data decides only whether their
branches run.  Main statement: wherever a run stands, also after a step that fails, the list is as
long as the instructions passed so far say, and all scripts that have ended are well nested.
-/

namespace UtxoSpend

open Effect Instruction

namespace Exec

variable {env : Env} {script : List Instruction} {offset : Nat} {i : Instruction} {s t : State}

/-! ## The opcodes of conditionals -/

theorem opens_iff {i : Instruction} :
    i.opens = true ↔ ∃ negated, i.op.action = .branch negated := by
  simp only [opens]
  exact forall_byte (p := fun op => (op == Opcode.branch || op == Opcode.negatedBranch) = true ↔
    ∃ negated, Opcode.action op = .branch negated) (by decide +kernel) i.op

theorem turns_iff {i : Instruction} : i.turns = true ↔ i.op.action = .otherwise := by
  simp only [turns]
  exact forall_byte (p := fun op => (op == Opcode.otherwise) = true ↔
    Opcode.action op = .otherwise) (by decide +kernel) i.op

theorem closes_iff {i : Instruction} : i.closes = true ↔ i.op.action = .endBranch := by
  simp only [closes]
  exact forall_byte (p := fun op => (op == Opcode.endBranch) = true ↔
    Opcode.action op = .endBranch) (by decide +kernel) i.op

/-! ## What leaves the open conditionals alone -/

abbrev KeepsBranches {α : Type} (x : Exec α) : Prop :=
  Preserves (fun s t => t.branches = s.branches) x

theorem keepsBranches_of_built (env : Env) {α : Type} {x : Exec α}
    (h : Built env Any {.branches}ᶜ x) : KeepsBranches x :=
  fun s => h.sameBut s .branches (by simp)

theorem perform_keepsBranches (hopens : i.opens = false) (hturns : i.turns = false)
    (hcloses : i.closes = false) : KeepsBranches (perform env script offset i) := by
  have hparts : i.op.action.parts ⊆ {.branches}ᶜ := by
    rw [← Bool.not_eq_true, opens_iff] at hopens
    rw [← Bool.not_eq_true, turns_iff] at hturns
    rw [← Bool.not_eq_true, closes_iff] at hcloses
    cases haction : i.op.action <;> simp_all [Action.parts]
  exact keepsBranches_of_built env (.perform .any script offset trivial hparts)

/-! ## What an instruction makes of the open conditionals -/

structure Reshaped (i : Instruction) (before after : List Bool) : Prop where
  after : ∃ runs, after = i.reshape runs before
  found : i.turns = true ∨ i.closes = true → before ≠ []

def Reshapes (i : Instruction) (x : Exec Unit) : Prop :=
  ∀ s, match x s with
    | .ok _ t => Reshaped i s.branches t.branches
    | .error _ t => t.branches = s.branches

theorem openBranch_reshapes {negated : Bool} (h : i.opens = true) :
    Reshapes i (openBranch negated) := by
  intro s
  have hopened : ∀ runs, Reshaped i s.branches (runs :: s.branches) := by
    intro runs
    refine ⟨⟨runs, (reshape_of_opens h).symm⟩, ?_⟩
    obtain ⟨hturns, hcloses⟩ := turns_eq_false_of_opens h
    simp [hturns, hcloses]
  rw [openBranch, get_bind_run]
  split_ifs
  · have hsame : Preserves (State.SameBut ∅) (onData Stack.popBool) := onData_sameBut _
    have hpops : KeepsBranches (onData Stack.popBool) :=
      fun s => hsame s .branches (Set.notMem_empty _)
    cases hpop : onData Stack.popBool s with
    | error e t =>
        rw [bind_of_error hpop]
        exact hpops.of_error hpop
    | ok condition t =>
        rw [bind_of_ok hpop, modify_run]
        have hkept : t.branches = s.branches := hpops.of_ok hpop
        dsimp only
        rw [hkept]
        exact hopened _
  · exact hopened false

theorem flipBranch_reshapes (h : i.turns = true) : Reshapes i (flipBranch i.op) := by
  intro s
  rw [flipBranch]
  cases hbranches : s.branches with
  | nil => exact hbranches
  | cons b r => exact ⟨⟨true, by rw [reshape_of_turns h]; rfl⟩, by simp⟩

theorem closeBranch_reshapes (h : i.closes = true) : Reshapes i (closeBranch i.op) := by
  intro s
  rw [closeBranch]
  cases hbranches : s.branches with
  | nil => exact hbranches
  | cons b r => exact ⟨⟨true, by rw [reshape_of_closes h]; rfl⟩, by simp⟩

theorem KeepsBranches.reshapes {x : Exec Unit} (hx : KeepsBranches x) (hopens : i.opens = false)
    (hturns : i.turns = false) (hcloses : i.closes = false) : Reshapes i x := by
  intro s
  have hkept := hx s
  cases hrun : x s with
  | error e t =>
      rw [hrun] at hkept
      exact hkept
  | ok u t =>
      rw [hrun] at hkept
      refine ⟨⟨true, ?_⟩, by simp [hturns, hcloses]⟩
      rw [reshape_of_shapeless hopens hturns hcloses]
      exact hkept

theorem perform_reshapes (env : Env) (script : List Instruction) (offset : Nat)
    (i : Instruction) : Reshapes i (perform env script offset i) := by
  cases hopens : i.opens with
  | true =>
      obtain ⟨negated, haction⟩ := opens_iff.mp hopens
      rw [perform, haction]
      exact openBranch_reshapes hopens
  | false =>
      cases hturns : i.turns with
      | true =>
          rw [perform, turns_iff.mp hturns]
          exact flipBranch_reshapes hturns
      | false =>
          cases hcloses : i.closes with
          | true =>
              rw [perform, closes_iff.mp hcloses]
              exact closeBranch_reshapes hcloses
          | false =>
              exact (perform_keepsBranches hopens hturns hcloses).reshapes hopens hturns hcloses

theorem Reshapes.after_keepsBranches {x : Exec Unit} {y : Exec Unit} (hx : KeepsBranches x)
    (hy : Reshapes i y) : Reshapes i (do x; y) := by
  intro s
  cases hrun : x s with
  | error e t =>
      rw [bind_of_error hrun]
      exact hx.of_error hrun
  | ok u t =>
      rw [bind_of_ok hrun]
      have hkept : t.branches = s.branches := hx.of_ok hrun
      have ht := hy t
      rw [hkept] at ht
      exact ht

theorem shapeless_of_not_isConditional (h : ¬i.op.isConditional = true) :
    i.opens = false ∧ i.turns = false ∧ i.closes = false := by
  simp only [opens, turns, closes]
  exact forall_byte (p := fun op => ¬Opcode.isConditional op = true →
    (op == Opcode.branch || op == Opcode.negatedBranch) = false ∧ (op == Opcode.otherwise) = false ∧
      (op == Opcode.endBranch) = false) (by decide +kernel) i.op h

theorem performOpen_reshapes (env : Env) (script : List Instruction) (offset : Nat)
    (i : Instruction) : Reshapes i (performOpen env script offset i) := by
  intro s
  have hperform := perform_reshapes env script offset i
  rw [performOpen, get_bind_run]
  split_ifs with hexecuting hconditional
  · exact Reshapes.after_keepsBranches (keepsBranches_of_built env (.failIf rfl)) hperform s
  · exact hperform s
  · obtain ⟨hopens, hturns, hcloses⟩ := shapeless_of_not_isConditional hconditional
    have hnothing : KeepsBranches (pure () : Exec Unit) := fun _ => rfl
    exact hnothing.reshapes hopens hturns hcloses s

theorem execute_reshapes (env : Env) (script : List Instruction) (offset : Nat)
    (i : Instruction) : Reshapes i (execute env script offset i) := by
  rw [execute_eq]
  have hprecheck : KeepsBranches (precheck env i) :=
    keepsBranches_of_built env (.precheck (by simp) i)
  exact .after_keepsBranches hprecheck (performOpen_reshapes _ _ _ _)

end Exec

namespace Machine

open Exec

variable {env : Env} {unlocking locking : Script} {m m' : Machine} {i : Instruction} {s : State}

/-- As many conditionals are open as the instructions passed so far say, these turned and closed
only open ones, and the scripts before the one that runs are well nested. -/
structure Nested (m : Machine) : Prop where
  depth : (m.state.branches.length : ℤ) = nesting (m.script.take m.offset)
  inside : Inside (m.script.take m.offset)
  ended : ∀ k < m.scriptIndex, WellNested (m.scripts.getD k [])

theorem Nested.of_offset_eq_zero (hoffset : m.offset = 0) (hclosed : m.state.branches = [])
    (hended : ∀ k < m.scriptIndex, WellNested (m.scripts.getD k [])) : Nested m where
  depth := by
    rw [hoffset, hclosed]
    rfl
  inside := by
    rw [hoffset]
    exact inside_nil
  ended := hended

theorem take_of_next? (hnext : m.next? = some i) :
    m.script.take (m.offset + 1) = m.script.take m.offset ++ [i] := by
  rw [List.take_add_one, show m.script[m.offset]? = some i from hnext]
  rfl

theorem Nested.stopped (h : Nested m) (hbranches : s.branches = m.state.branches) :
    Nested { m with state := s } where
  depth := by
    dsimp only
    rw [hbranches]
    exact h.depth
  inside := h.inside
  ended := h.ended

theorem Nested.passed (h : Nested m) (hnext : m.next? = some i)
    (hreshaped : Reshaped i m.state.branches s.branches) : Nested (m.passed s) := by
  obtain ⟨⟨runs, hafter⟩, hfound⟩ := hreshaped
  have htake : (m.passed s).script.take (m.passed s).offset = m.script.take m.offset ++ [i] :=
    take_of_next? hnext
  refine ⟨?_, ?_, h.ended⟩
  · calc ((m.passed s).state.branches.length : ℤ)
        = (i.reshape runs m.state.branches).length := by rw [← hafter]; rfl
      _ = m.state.branches.length + nesting [i] := length_reshape hfound
      _ = nesting (m.script.take m.offset ++ [i]) := by rw [h.depth, nesting_append]
      _ = _ := by rw [htake]
  · rw [htake]
    refine inside_snoc_iff.mpr ⟨h.inside, fun hshape => ?_⟩
    rw [← h.depth]
    exact_mod_cast List.length_pos_iff.mpr (hfound hshape)

theorem Nested.wellNested (h : Nested m) (hend : m.script.length ≤ m.offset)
    (hclosed : m.state.branches = []) : WellNested m.script := by
  have hdepth := h.depth
  have hinside := h.inside
  rw [List.take_of_length_le hend] at hdepth hinside
  refine ⟨hinside, ?_⟩
  rw [← hdepth, hclosed]
  rfl

theorem Nested.advance (h : Nested m) (hend : m.script.length ≤ m.offset)
    (hclosed : m.state.branches = []) : Nested m.advance := by
  refine .of_offset_eq_zero rfl rfl fun k hk => ?_
  rcases Nat.lt_succ_iff_lt_or_eq.mp hk with hlt | rfl
  · exact h.ended k hlt
  · exact h.wellNested hend hclosed

theorem Nested.skipEmpty (h : Nested m) (hoffset : m.offset = 0) (hclosed : m.state.branches = []) :
    Nested m.skipEmpty := by
  unfold Machine.skipEmpty
  split_ifs with hempty
  · refine .of_offset_eq_zero hoffset hclosed fun k hk => ?_
    rcases Nat.lt_succ_iff_lt_or_eq.mp hk with hlt | rfl
    · exact h.ended k hlt
    · dsimp only
      rw [List.getD_eq_getElem?_getD, hempty]
      exact wellNested_nil
  · exact h

theorem Nested.prepareRedeem (h : Nested m) (hoffset : m.offset = 0)
    (hclosed : m.state.branches = []) (hindex : m.scriptIndex ≤ m.scripts.length)
    (hprepare : Machine.prepareRedeem env m = .ok m') :
    Nested m' ∧ m'.offset = 0 ∧ m'.state.branches = [] := by
  obtain rfl | ⟨-, rfl⟩ | ⟨-, hqueue⟩ := prepareRedeem_eq_ok hprepare
  · exact ⟨h, hoffset, hclosed⟩
  · exact ⟨⟨h.depth, h.inside, h.ended⟩, hoffset, hclosed⟩
  · obtain ⟨redeem, below, third, -, -, rfl⟩ := queueRedeem_eq_ok hqueue
    refine ⟨.of_offset_eq_zero hoffset hclosed fun k hk => ?_, hoffset, hclosed⟩
    have hold : k < m.scripts.length := Nat.lt_of_lt_of_le hk hindex
    dsimp only
    rw [List.getD_append _ _ _ _ hold]
    exact h.ended k hk

theorem Nested.endScript (h : Nested m) (hend : m.script.length ≤ m.offset)
    (hindex : m.scriptIndex < m.scripts.length) : Nested (left (Machine.endScript env m)) := by
  unfold Machine.endScript
  split_ifs with hopen
  · exact h
  · have hclosed : m.state.branches = [] := by simpa using hopen
    have hadvanced := h.advance hend hclosed
    split
    · exact hadvanced
    · rename_i next hprepare
      obtain ⟨hnext, hoffset, hnone⟩ := hadvanced.prepareRedeem rfl rfl hindex hprepare
      exact hnext.skipEmpty hoffset hnone

/-- A step keeps the conditionals nested, whether or not it succeeds. -/
theorem Nested.step (h : Nested m) : Nested (left (Machine.step env m)) := by
  rw [Machine.step]
  cases hnext : m.next? with
  | none => exact h
  | some i =>
      have hreshapes := execute_reshapes env m.script m.offset i m.state
      dsimp only
      cases hexec : execute env m.script m.offset i m.state with
      | error e s =>
          rw [hexec] at hreshapes
          exact h.stopped hreshapes
      | ok u s =>
          rw [hexec] at hreshapes
          have hpassed : Nested (m.passed s) := h.passed hnext hreshapes
          have hlt := lt_length_of_next? hnext
          dsimp only
          split_ifs with hdepth hmore
          · exact hpassed
          · exact hpassed
          · exact hpassed.endScript (Nat.le_of_not_lt hmore) hlt

theorem nested_start (h : start env unlocking locking = .ok m) : Nested m := by
  obtain ⟨first, second, hstart, rfl⟩ := start_eq_ok_iff.mp h
  refine .of_offset_eq_zero rfl rfl fun k hk => ?_
  -- Only an empty unlocking script is passed over at the start.
  cases hempty : unlocking.isEmpty with
  | false =>
      have hindex : (initial env unlocking locking first second).scriptIndex = 0 :=
        if_neg (by simp [hempty])
      omega
  | true =>
      have hindex : (initial env unlocking locking first second).scriptIndex = 1 := if_pos hempty
      have hfirst : first = [] := (isEmpty_iff hstart.unlockingParses).mp hempty
      obtain rfl : k = 0 := by omega
      rw [hfirst]
      exact wellNested_nil

theorem Run.nested {past : List Machine} (h : Run env unlocking locking past m) : Nested m := by
  induction h with
  | start h => exact nested_start h
  | @step past m m' done run h ih =>
      have hleft : Nested (left (Machine.step env m)) := ih.step
      rw [h] at hleft
      exact hleft

end Machine

end UtxoSpend
