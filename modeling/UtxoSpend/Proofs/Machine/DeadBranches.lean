import Mathlib
import UtxoSpend.Proofs.Machine.Branches
import UtxoSpend.Proofs.Machine.Limits

/-!
# Branches that do not run

In a branch that does not run instructions are counted, and those of conditionals keep the list of
open conditionals, but no other part of the state is looked at or changed.  Main statement: a block
that closes all conditionals that it opens, and no other, is stepped over without effect, unless one
of its instructions is of the kind that fails everywhere.
-/

namespace UtxoSpend

open Effect Instruction State

structure State.Inert (s t : State) : Prop where
  data : t.data = s.data
  alt : t.alt = s.alt
  codeStart : t.codeStart = s.codeStart
  checks : t.checks = s.checks

def Env.inContext (env : Env) (context : Option TxContext) : Env := { env with context := context }

namespace Exec

variable {env : Env} {script : List Instruction} {offset : Nat} {i : Instruction} {s t : State}

/-! ## One instruction -/

/-- Why an instruction fails that is not run, when `n` operations are counted with it. -/
inductive FailsUnrun (limits : Limits) (n : Nat) (i : Instruction) : Failure → Prop
  | oversized (h : limits.elementSize < i.data.length) :
      FailsUnrun limits n i (.elementTooBig i.data.length limits.elementSize)
  | exhausted (hcounted : i.op.isCounted = true) (h : limits.operations < n) :
      FailsUnrun limits n i (.tooManyOperations limits.operations)
  | disabled (h : i.op.isDisabled = true) : FailsUnrun limits n i (.disabled i.op)
  | reserved (h : i.asksVersion = true) : FailsUnrun limits n i (.reserved i.op)

def counted (is : List Instruction) : Nat := is.countP fun i => i.op.isCounted

def skip (env : Env) (i : Instruction) : Exec Unit := do
  precheck env i
  failIf i.asksVersion (.reserved i.op)
  modify fun s => { s with branches := i.reshape false s.branches }

theorem precheck_cases (env : Env) (i : Instruction) (s : State) :
    (∃ e n, FailsUnrun env.limits (s.operations + 1) i e ∧
        precheck env i s = .error e { s with operations := n }) ∨
      precheck env i s = .ok () { s with operations := s.operations + counted [i] } := by
  rw [precheck]
  by_cases hsize : env.limits.elementSize < i.data.length
  · refine .inl ⟨_, s.operations, .oversized hsize, ?_⟩
    rw [failIf_bind_true _ _ _ (decide_eq_true hsize)]
  · rw [failIf_bind_false _ _ _ (decide_eq_false hsize)]
    by_cases hcounted : i.op.isCounted = true
    · have hone : counted [i] = 1 := by simp [counted, hcounted]
      dsimp only
      rw [if_pos hcounted, hone]
      by_cases hlimit : env.limits.operations < s.operations + 1
      · refine .inl ⟨_, s.operations + 1, .exhausted hcounted hlimit, ?_⟩
        rw [bind_of_error (by rw [countOperations_run, if_pos hlimit])]
      · rw [bind_of_ok (a := ()) (by rw [countOperations_run, if_neg hlimit]), failIf_run]
        by_cases hdisabled : i.op.isDisabled = true
        · exact .inl ⟨_, s.operations + 1, .disabled hdisabled, if_pos hdisabled⟩
        · exact .inr (if_neg hdisabled)
    · have hnone : counted [i] = 0 := by simp [counted, hcounted]
      dsimp only
      rw [if_neg hcounted, hnone, failIf_run]
      by_cases hdisabled : i.op.isDisabled = true
      · exact .inl ⟨_, s.operations, .disabled hdisabled, if_pos hdisabled⟩
      · exact .inr (if_neg hdisabled)

theorem skip_cases (env : Env) (i : Instruction) (s : State) :
    (∃ e n, FailsUnrun env.limits (s.operations + 1) i e ∧
        skip env i s = .error e { s with operations := n }) ∨
      skip env i s = .ok () { s with
        operations := s.operations + counted [i]
        branches := i.reshape false s.branches } := by
  rw [skip]
  obtain ⟨e, n, hfails, hprecheck⟩ | hprecheck := precheck_cases env i s
  · exact .inl ⟨e, n, hfails, by rw [bind_of_error hprecheck]⟩
  · rw [bind_of_ok hprecheck]
    by_cases hversion : i.asksVersion = true
    · refine .inl ⟨_, s.operations + counted [i], .reserved hversion, ?_⟩
      rw [failIf_bind_true _ _ _ hversion]
    · rw [failIf_bind_false _ _ _ (by simpa using hversion)]
      exact .inr rfl

theorem branches_ne_nil (h : s.isExecuting = false) : s.branches ≠ [] := by
  intro hnil
  rw [State.isExecuting, hnil] at h
  cases h

/-- The conditional opcodes are those that shape conditionals, and two that are reserved. -/
theorem asksVersion_iff : i.asksVersion = true ↔
    i.op.isConditional = true ∧ i.opens = false ∧ i.turns = false ∧ i.closes = false := by
  simp only [asksVersion, opens, turns, closes]
  exact forall_byte (p := fun op =>
    (op == Opcode.versionBranch || op == Opcode.negatedVersionBranch) = true ↔
      Opcode.isConditional op = true ∧
        (op == Opcode.branch || op == Opcode.negatedBranch) = false ∧
        (op == Opcode.otherwise) = false ∧ (op == Opcode.endBranch) = false)
    (by decide +kernel) i.op

theorem action_of_asksVersion (h : i.asksVersion = true) : i.op.action = .reserved := by
  rw [asksVersion, Bool.or_eq_true, beq_iff_eq, beq_iff_eq] at h
  rcases h with h | h <;> rw [h] <;> decide

theorem perform_of_unrun (h : s.isExecuting = false)
    (hshape : i.opens = true ∨ i.turns = true ∨ i.closes = true) :
    perform env script offset i s = .ok () { s with branches := i.reshape false s.branches } := by
  obtain ⟨b, r, hbranches⟩ := List.exists_cons_of_ne_nil (branches_ne_nil h)
  rw [perform]
  rcases hshape with hopens | hturns | hcloses
  · obtain ⟨negated, haction⟩ := opens_iff.mp hopens
    rw [haction]
    dsimp only
    rw [openBranch, get_bind_run, if_neg (by simp [h]), reshape_of_opens hopens]
    rfl
  · rw [turns_iff.mp hturns]
    dsimp only
    rw [flipBranch, hbranches, reshape_of_turns hturns]
    rfl
  · rw [closes_iff.mp hcloses]
    dsimp only
    rw [closeBranch, hbranches, reshape_of_closes hcloses]
    rfl

/-- Where some branch does not run, an instruction is skipped, wherever it stands. -/
theorem execute_eq_skip (h : s.isExecuting = false) :
    execute env script offset i s = skip env i s := by
  rw [execute_eq, skip]
  cases hprecheck : precheck env i s with
  | error e t => rw [bind_of_error hprecheck, bind_of_error hprecheck]
  | ok u t =>
      rw [bind_of_ok hprecheck, bind_of_ok hprecheck]
      obtain ⟨operations, rfl⟩ := precheck_eq_ok hprecheck
      have hunrun : State.isExecuting { s with operations := operations } = false := h
      rw [performOpen, get_bind_run, if_neg (by simp [hunrun])]
      by_cases hshape : i.opens = true ∨ i.turns = true ∨ i.closes = true
      · have hversion : i.asksVersion = false := by
          rw [Bool.eq_false_iff, ne_eq, asksVersion_iff]
          rintro ⟨-, hopens, hturns, hcloses⟩
          simp [hopens, hturns, hcloses] at hshape
        have hconditional : i.op.isConditional = true := by
          by_contra hnot
          simp [shapeless_of_not_isConditional hnot] at hshape
        rw [if_pos hconditional, perform_of_unrun hunrun hshape, failIf_bind_false _ _ _ hversion]
        rfl
      · simp only [not_or, Bool.not_eq_true] at hshape
        obtain ⟨hopens, hturns, hcloses⟩ := hshape
        by_cases hconditional : i.op.isConditional = true
        · have hversion := asksVersion_iff.mpr ⟨hconditional, hopens, hturns, hcloses⟩
          rw [if_pos hconditional, perform, action_of_asksVersion hversion,
            failIf_bind_true _ _ _ hversion]
          rfl
        · have hversion : i.asksVersion = false := by
            rw [Bool.eq_false_iff, ne_eq, asksVersion_iff]
            exact fun hboth => hconditional hboth.1
          rw [if_neg hconditional, failIf_bind_false _ _ _ hversion, modify_run,
            reshape_of_shapeless hopens hturns hcloses]
          rfl

theorem execute_inContext (h : s.isExecuting = false) (context : Option TxContext) :
    execute (env.inContext context) script offset i s = execute env script offset i s := by
  rw [execute_eq_skip h, execute_eq_skip h]
  rfl

theorem execute_inert (h : s.isExecuting = false) :
    Inert s (left (execute env script offset i s)) := by
  rw [execute_eq_skip h]
  obtain ⟨e, n, -, hskip⟩ | hskip := skip_cases env i s
  · rw [hskip]
    exact ⟨rfl, rfl, rfl, rfl⟩
  · rw [hskip]
    exact ⟨rfl, rfl, rfl, rfl⟩

end Exec

namespace Machine

open Exec

variable {env : Env} {unlocking locking : Script} {m m' : Machine} {i : Instruction}
  {is block rest : List Instruction}

/-! ## Blocks -/

def skipped (m : Machine) (is : List Instruction) (inner : List Bool) : Machine :=
  { m with
    offset := m.offset + is.length
    state := { m.state with
      operations := m.state.operations + counted is
      branches := inner ++ m.state.branches } }

theorem isExecuting_skipped (h : m.isExecuting = false) (is : List Instruction)
    (inner : List Bool) : (m.skipped is inner).state.isExecuting = false := by
  rw [isExecuting, State.isExecuting] at h
  rw [State.isExecuting]
  dsimp only [skipped]
  rw [List.all_append, h, Bool.and_false]

theorem step_inContext (h : m.isExecuting = false) (context : Option TxContext) :
    step (env.inContext context) m = step env m := by
  rw [step, step]
  cases m.next? with
  | none => rfl
  | some i =>
      dsimp only
      rw [execute_inContext h]
      rfl

theorem steps_one (m : Machine) : steps env 1 m = step env m := by
  rw [steps_succ]
  cases step env m with
  | error e next => rfl
  | ok done next => cases done <;> rfl

inductive Skips (env : Env) (m : Machine) (is : List Instruction) :
    EStateM.Result Failure Machine Bool → Prop
  | passed (inner : List Bool) (h : (inner.length : ℤ) = nesting is) :
      Skips env m is (.ok false (m.skipped is inner))
  | failed {before after : List Instruction} {i : Instruction} {e : Failure} {m' : Machine}
      (his : is = before ++ i :: after)
      (h : FailsUnrun env.limits (m.state.operations + counted before + 1) i e)
      (hinert : m.state.Inert m'.state) : Skips env m is (.error e m')

def skippedState (m : Machine) (is : List Instruction) (inner : List Bool) (i : Instruction) :
    State :=
  { (m.skipped is inner).state with
    operations := (m.skipped is inner).state.operations + counted [i]
    branches := i.reshape false (m.skipped is inner).state.branches }

theorem skipped_snoc {inner : List Bool} (hopen : i.turns = true ∨ i.closes = true → inner ≠ []) :
    (m.skipped is inner).passed (m.skippedState is inner i) =
      m.skipped (is ++ [i]) (i.reshape false inner) := by
  have hreshape : i.reshape false (inner ++ m.state.branches) =
      i.reshape false inner ++ m.state.branches := reshape_append hopen
  have hcounted : counted (is ++ [i]) = counted is + counted [i] := List.countP_append
  simp only [passed, skippedState, skipped, List.length_append, List.length_singleton, hreshape,
    hcounted, Nat.add_assoc]

theorem skips_snoc {inner : List Bool} (hunrun : m.isExecuting = false)
    (hdepth : m.state.depth ≤ env.limits.stackItems)
    (hdrop : m.script.drop m.offset = is ++ i :: rest) (hrest : rest ≠ [])
    (hinner : (inner.length : ℤ) = nesting is)
    (hshape : i.turns = true ∨ i.closes = true → 0 < nesting is) :
    Skips env m (is ++ [i]) (step env (m.skipped is inner)) := by
  have hdrop' : (m.skipped is inner).script.drop (m.skipped is inner).offset = i :: rest := by
    change m.script.drop (m.offset + is.length) = i :: rest
    rw [← List.drop_drop, hdrop, List.drop_left]
  have hnext := next?_of_drop hdrop'
  have hexec : execute env (m.skipped is inner).script (m.skipped is inner).offset i
      (m.skipped is inner).state = skip env i (m.skipped is inner).state :=
    execute_eq_skip (isExecuting_skipped hunrun is inner)
  obtain ⟨e, n, hfails, hskip⟩ | hskip := skip_cases env i (m.skipped is inner).state
  · have hbounded := executeBounded_run env (m.skipped is inner).script
      (m.skipped is inner).offset i (m.skipped is inner).state
    rw [hexec, hskip] at hbounded
    obtain ⟨m', hstate, hstep⟩ := step_of_error hnext hbounded
    rw [hstep]
    refine .failed rfl hfails ?_
    rw [hstate]
    exact ⟨rfl, rfl, rfl, rfl⟩
  · have hbounded : executeBounded env (m.skipped is inner).script (m.skipped is inner).offset i
        (m.skipped is inner).state = .ok () (m.skippedState is inner i) :=
      executeBounded_eq_ok_iff.mpr ⟨hexec.trans hskip, hdepth⟩
    have hmore : (m.skipped is inner).offset + 1 < (m.skipped is inner).script.length := by
      have hlength := congrArg List.length hdrop'
      have hpos := List.length_pos_iff.mpr hrest
      rw [List.length_drop, List.length_cons] at hlength
      omega
    have hopen : i.turns = true ∨ i.closes = true → inner ≠ [] := by
      intro h
      have hpos := hshape h
      rw [← hinner] at hpos
      exact List.length_pos_iff.mp (by exact_mod_cast hpos)
    rw [step_of_ok hnext hbounded, if_pos hmore, skipped_snoc hopen]
    refine .passed _ ?_
    rw [length_reshape hopen, hinner, nesting_append]

theorem Skips.snoc_of_error {e : Failure} (h : Skips env m is (.error e m')) :
    Skips env m (is ++ [i]) (.error e m') := by
  cases h with
  | failed his h hinert =>
      exact .failed (by rw [his, List.append_assoc, List.cons_append]) h hinert

/-- Instructions that turn and close no conditionals but those they opened are skipped, or one of
them fails; the transaction is not asked. -/
theorem steps_skips (hunrun : m.isExecuting = false)
    (hdepth : m.state.depth ≤ env.limits.stackItems) (hinside : Inside is)
    (hdrop : m.script.drop m.offset = is ++ rest) (hrest : rest ≠ []) :
    Skips env m is (steps env is.length m) ∧
      ∀ context, steps (env.inContext context) is.length m = steps env is.length m := by
  induction is using List.reverseRecOn generalizing rest with
  | nil =>
      have hsame : m.skipped [] [] = m := rfl
      refine ⟨?_, fun context => rfl⟩
      rw [List.length_nil, steps, ← hsame]
      exact .passed [] rfl
  | append_singleton is i ih =>
      obtain ⟨hinside, hshape⟩ := inside_snoc_iff.mp hinside
      rw [List.append_assoc, List.singleton_append] at hdrop
      obtain ⟨hskips, hcontext⟩ := ih hinside hdrop (List.cons_ne_nil i rest)
      rw [List.length_append, List.length_singleton]
      simp only [steps_add, hcontext]
      cases hsteps : steps env is.length m with
      | error e m' =>
          rw [hsteps] at hskips
          exact ⟨hskips.snoc_of_error, fun context => rfl⟩
      | ok done m' =>
          rw [hsteps] at hskips
          cases hskips with
          | passed inner hinner =>
              have hresume : ∀ env : Env, resume env 1 (.ok false (m.skipped is inner)) =
                  step env (m.skipped is inner) := fun env => steps_one _
              simp only [hresume]
              refine ⟨skips_snoc hunrun hdepth hdrop hrest hinner hshape, fun context => ?_⟩
              exact step_inContext (isExecuting_skipped hunrun is inner) context

/-- How a machine gets over a block: it is behind it and nothing but the operations has changed, or
an instruction has failed without effect. -/
inductive StepsOver (env : Env) (m : Machine) (block : List Instruction) : Prop
  | passed (h : steps env block.length m = .ok false { m with
      offset := m.offset + block.length
      state := { m.state with operations := m.state.operations + counted block } })
  | failed {before after : List Instruction} {i : Instruction} {e : Failure} {m' : Machine}
      (hblock : block = before ++ i :: after)
      (h : FailsUnrun env.limits (m.state.operations + counted before + 1) i e)
      (hsteps : steps env block.length m = .error e m') (hinert : m.state.Inert m'.state)

/-- What holds of a machine in a branch that does not run. -/
structure Unrun (env : Env) (m : Machine) : Prop where
  inert : ∀ i, m.state.Inert (left (execute env m.script m.offset i m.state))
  unasked : ∀ i context,
    execute (env.inContext context) m.script m.offset i m.state =
      execute env m.script m.offset i m.state
  block : ∀ block rest, m.script.drop m.offset = block ++ rest → rest ≠ [] → WellNested block →
    StepsOver env m block ∧
      ∀ context, steps (env.inContext context) block.length m = steps env block.length m

theorem unrun (hunrun : m.isExecuting = false) (hdepth : m.state.depth ≤ env.limits.stackItems) :
    Unrun env m where
  inert i := execute_inert hunrun
  unasked i context := execute_inContext hunrun context
  block block rest hdrop hrest hnested := by
    obtain ⟨hskips, hcontext⟩ := steps_skips hunrun hdepth hnested.inside hdrop hrest
    refine ⟨?_, hcontext⟩
    cases hsteps : steps env block.length m with
    | error e m' =>
        rw [hsteps] at hskips
        cases hskips with
        | failed hblock h hinert => exact .failed hblock h hsteps hinert
    | ok done m' =>
        rw [hsteps] at hskips
        cases hskips with
        | passed inner hinner =>
            have hnone : inner = [] := by
              rw [hnested.closed] at hinner
              exact List.length_eq_zero_iff.mp (by exact_mod_cast hinner)
            refine .passed (hsteps.trans ?_)
            rw [hnone]
            rfl

/-- Along every run, conditionals are nested as the script says, and branches that do not run have
no effect. -/
theorem run_nested_and_inert {past : List Machine} (h : Run env unlocking locking past m) :
    (Nested m ∧ Nested (left (step env m))) ∧ (m.isExecuting = false → Unrun env m) :=
  ⟨⟨h.nested, h.nested.step⟩, fun hunrun => unrun hunrun h.bounded.depth⟩

/-- A conditional that does not run, with another conditional in it and a number behind it. -/
def nestedBranches : Script := ⟨[0x00, 0x63, 0x63, 0x6a, 0x67, 0xac, 0x68, 0x68, 0x51]⟩

/-- Inside of the outer conditional and in front of the inner one. -/
theorem run_nested_and_inert_nestedBranches :
    ∃ past m, Run trustingEnv ⟨[0x51]⟩ nestedBranches past m ∧ m.isExecuting = false ∧
      m.script.drop m.offset =
        [⟨0x63, []⟩, ⟨0x6a, []⟩, ⟨0x67, []⟩, ⟨0xac, []⟩, ⟨0x68, []⟩] ++ [⟨0x68, []⟩, ⟨0x51, []⟩] ∧
      StepsOver trustingEnv m [⟨0x63, []⟩, ⟨0x6a, []⟩, ⟨0x67, []⟩, ⟨0xac, []⟩, ⟨0x68, []⟩] := by
  have hstartable : Startable trustingEnv ⟨[0x51]⟩ nestedBranches [⟨0x51, []⟩]
      [⟨0x00, []⟩, ⟨0x63, []⟩, ⟨0x63, []⟩, ⟨0x6a, []⟩, ⟨0x67, []⟩, ⟨0xac, []⟩, ⟨0x68, []⟩,
        ⟨0x68, []⟩, ⟨0x51, []⟩] :=
    ⟨by decide, by decide, by decide, by decide, Instruction.parse_eq_ok_iff.mpr ⟨by decide, rfl⟩,
      Instruction.parse_eq_ok_iff.mpr ⟨by decide, rfl⟩, by decide, by decide⟩
  have hstart := start_eq_ok_iff.mpr ⟨_, _, hstartable, rfl⟩
  generalize hm : initial trustingEnv ⟨[0x51]⟩ nestedBranches _ _ = m at hstart
  have hplace : (answer (steps trustingEnv 3 m)).toOption = some false ∧
      (left (steps trustingEnv 3 m)).isExecuting = false ∧
      (left (steps trustingEnv 3 m)).script.drop (left (steps trustingEnv 3 m)).offset =
        [⟨0x63, []⟩, ⟨0x6a, []⟩, ⟨0x67, []⟩, ⟨0xac, []⟩, ⟨0x68, []⟩] ++
          [⟨0x68, []⟩, ⟨0x51, []⟩] := by
    rw [← hm]
    decide +kernel
  cases hsteps : steps trustingEnv 3 m with
  | error e m' =>
      rw [hsteps] at hplace
      cases hplace.1
  | ok done m' =>
      rw [hsteps] at hplace
      obtain ⟨-, hunrun, hdrop⟩ := hplace
      obtain ⟨past, hrun⟩ := (Run.start hstart).of_steps hsteps
      have hinert := (run_nested_and_inert hrun).2 hunrun
      have hover := hinert.block _ _ hdrop (by decide) (by decide)
      exact ⟨past, m', hrun, hunrun, hdrop, hover.1⟩

end Machine

end UtxoSpend
