import Mathlib
import UtxoSpend.Proofs.Machine.Building
import UtxoSpend.Proofs.Machine.Loading
import UtxoSpend.Proofs.Machine.SignedCode

/-!
# Every run ends within its scripts

Each step moves the machine over exactly one instruction, counted over all scripts, and it never
comes to rest behind the last one.  Main statement: the loop that steps until all scripts have run
ends after at most as many steps as there are instructions in the scripts, the redeem script
included; wherever it steps from there is an instruction to execute, and what this reads of the
script and of its data is there.
-/

namespace UtxoSpend

open Effect

/-! ## Where signature opcodes cut the script -/

namespace Exec

inductive CutsIn (env : Env) (i : Instruction) (s t : State) : Prop
  | one {verify : Bool} {u : State} {taken : Bytes × Bytes}
      (haction : i.op.action = .checkSig verify) (hcounted : precheck env i s = .ok () u)
      (htake : takeOne u = .ok taken t)
  | several {verify : Bool} {u : State} {taken : List Bytes × List Bytes}
      (haction : i.op.action = .checkMultiSig verify) (hcounted : precheck env i s = .ok () u)
      (htake : takeSeveral env u = .ok taken t)

theorem CutsIn.codeStart {env : Env} {i : Instruction} {s t : State} (h : CutsIn env i s t) :
    t.codeStart = s.codeStart := by
  cases h with
  | one haction hcounted htake =>
      have hprecheck := (precheck_unasked env i).of_ok hcounted
      have htaken := (unasked_of_built env .takeOne).of_ok htake
      exact htaken.codeStart.trans hprecheck.codeStart
  | several haction hcounted htake =>
      have hprecheck := (precheck_unasked env i).of_ok hcounted
      have htaken := (unasked_of_built env (.takeSeveral (.inr rfl))).of_ok htake
      exact htaken.codeStart.trans hprecheck.codeStart

end Exec

namespace Instruction

theorem Fits.data_of_op_one {i : Instruction} (h : i.Fits) (hop : i.op = 1) :
    ∃ b, i.data = [b] := by
  rw [Fits, hop] at h
  exact List.length_eq_one_iff.mp h

end Instruction

namespace Machine

open Exec Script

variable {env : Env} {unlocking locking : Script} {m m' : Machine}

/-! ## Places counted over all scripts -/

def position (m : Machine) : Nat := (m.scripts.take m.scriptIndex).flatten.length + m.offset

def size (m : Machine) : Nat := m.scripts.flatten.length

theorem length_flatten_take_succ {scripts : List (List Instruction)} {n : Nat}
    (h : n < scripts.length) :
    (scripts.take (n + 1)).flatten.length =
      (scripts.take n).flatten.length + (scripts.getD n []).length := by
  rw [List.take_succ_eq_append_getElem h, List.flatten_append, List.length_append,
    List.getD_eq_getElem _ _ h]
  simp

theorem position_skipEmpty (m : Machine) : m.skipEmpty.position = m.position := by
  unfold skipEmpty
  split_ifs with hempty
  · obtain ⟨hlt, hget⟩ := List.getElem?_eq_some_iff.mp hempty
    rw [position, position, length_flatten_take_succ hlt, List.getD_eq_getElem _ _ hlt, hget]
    rfl
  · rfl

theorem scripts_of_prepareRedeem (h : prepareRedeem env m = .ok m') :
    m'.offset = m.offset ∧ ∃ queued, m'.scripts = m.scripts ++ queued ∧
      (queued = [] ∨ m.scriptIndex = 2 ∧ queued.length = 1) := by
  obtain rfl | ⟨-, rfl⟩ | ⟨⟨-, hindex⟩, hqueue⟩ := prepareRedeem_eq_ok h
  · exact ⟨rfl, [], (List.append_nil _).symm, .inl rfl⟩
  · exact ⟨rfl, [], (List.append_nil _).symm, .inl rfl⟩
  · obtain ⟨redeem, below, third, -, -, rfl⟩ := queueRedeem_eq_ok hqueue
    exact ⟨rfl, [third], rfl, .inr ⟨hindex, rfl⟩⟩

/-- Behind an empty script nothing is left, so where something is left there is an instruction. -/
theorem offset_lt_of_skipEmpty (hlast : m.scripts.length ≤ m.scriptIndex + 1)
    (hoffset : m.offset = 0) (hmore : m.skipEmpty.scriptIndex < m.skipEmpty.scripts.length) :
    m.skipEmpty.offset < m.skipEmpty.script.length := by
  unfold skipEmpty at hmore ⊢
  split_ifs at hmore ⊢ with hempty
  · have hnone : m.scriptIndex + 1 < m.scripts.length := hmore
    omega
  · rw [hoffset, script, List.getD_eq_getElem _ _ hmore, List.length_pos_iff]
    intro hnil
    exact hempty (List.getElem?_eq_some_iff.mpr ⟨hmore, hnil⟩)

/-- A step moves the machine over one instruction, and onto another one unless all have run. -/
theorem position_of_step (hloads : Loads env unlocking locking m) {done : Bool}
    (h : step env m = .ok done m') :
    m'.position = m.position + 1 ∧ (done = false → m'.offset < m'.script.length) := by
  obtain ⟨i, s, hnext, -, ⟨hlt, -, rfl⟩ | ⟨hlast, hend⟩⟩ := of_step_eq_ok h
  · exact ⟨rfl, fun _ => hlt⟩
  · obtain ⟨next, hprepare, rfl, -, hdone⟩ := endScript_eq_ok hend
    have hindex : next.scriptIndex = m.scriptIndex + 1 := scriptIndex_of_prepareRedeem hprepare
    obtain ⟨hoffset, queued, hscripts, hqueued⟩ := scripts_of_prepareRedeem hprepare
    have hplace : m.scriptIndex < m.scripts.length := lt_length_of_next? hnext
    have hlength : m.script.length = m.offset + 1 :=
      Nat.le_antisymm hlast (List.getElem?_eq_some_iff.mp hnext).1
    have hzero : next.offset = 0 := hoffset
    have hall : next.scripts = m.scripts ++ queued := hscripts
    refine ⟨?_, fun hfalse => offset_lt_of_skipEmpty ?_ hzero ?_⟩
    · rw [position_skipEmpty, position, hindex, hzero, hall, List.take_append_of_le_length hplace,
        length_flatten_take_succ hplace, ← script, hlength, position]
      rfl
    · have hloaded := hloads.length_le_add_two
      rw [hall, List.length_append]
      rcases hqueued with rfl | ⟨hredeem, hone⟩
      · rw [List.length_nil]
        omega
      · have hsecond : m.scriptIndex = 1 := Nat.succ.inj hredeem
        have htwo := hloads.length_eq_two (by omega)
        omega
    · rw [hfalse] at hdone
      exact Nat.lt_of_not_le (of_decide_eq_false hdone.symm)

/-- Before an instruction, what the loaded scripts have is what is behind and what is left. -/
theorem size_eq (h : m.offset < m.script.length) :
    m.size = m.position + m.instructionsLeft ∧ 0 < m.instructionsLeft := by
  have hplace : m.scriptIndex < m.scripts.length := by
    by_contra hge
    rw [script, List.getD_eq_default _ _ (Nat.le_of_not_lt hge)] at h
    exact absurd h (Nat.not_lt_zero _)
  have hsplit : m.scripts.flatten.length = (m.scripts.take m.scriptIndex).flatten.length +
      (m.scripts.drop m.scriptIndex).flatten.length := by
    rw [← List.length_append, ← List.flatten_append, List.take_append_drop]
  have hdrop : m.script.length ≤ (m.scripts.drop m.scriptIndex).flatten.length := by
    rw [script, List.getD_eq_getElem _ _ hplace, List.drop_eq_getElem_cons hplace,
      List.flatten_cons, List.length_append]
    exact Nat.le_add_right _ _
  rw [size, hsplit, position, instructionsLeft]
  omega

theorem scripts_of_step {done : Bool} (h : step env m = .ok done m') :
    ∃ queued, m'.scripts = m.scripts ++ queued := by
  obtain ⟨i, s, -, -, ⟨-, -, rfl⟩ | ⟨-, hend⟩⟩ := of_step_eq_ok h
  · exact ⟨[], (List.append_nil _).symm⟩
  · obtain ⟨next, hprepare, rfl, -⟩ := endScript_eq_ok hend
    obtain ⟨-, queued, hscripts, -⟩ := scripts_of_prepareRedeem hprepare
    refine ⟨queued, ?_⟩
    obtain heq | heq := skipEmpty_eq next <;> rw [heq]
    · exact hscripts
    · exact hscripts

/-! ## The loop -/

inductive Loop (env : Env) : Machine → Nat → EStateM.Result Failure Machine Bool → Prop
  | again {m m' : Machine} {count : Nat} {r : EStateM.Result Failure Machine Bool}
      (h : step env m = .ok false m') (rest : Loop env m' count r) : Loop env m (count + 1) r
  | done {m m' : Machine} (h : step env m = .ok true m') : Loop env m 1 (.ok true m')
  | failed {m m' : Machine} {e : Failure} (h : step env m = .error e m') :
      Loop env m 1 (.error e m')

variable {r : EStateM.Result Failure Machine Bool} {count : Nat}

theorem exists_loop_of_steps (h : steps env count m = r) (hr : ∀ m', r ≠ .ok false m') :
    ∃ n, Loop env m n r := by
  induction count generalizing m with
  | zero => exact absurd h.symm (hr m)
  | succ count ih =>
      rw [steps_succ] at h
      cases hstep : step env m with
      | error e next =>
          rw [hstep] at h
          cases h
          exact ⟨1, .failed hstep⟩
      | ok finished next =>
          rw [hstep] at h
          cases finished with
          | true =>
              cases h
              exact ⟨1, .done hstep⟩
          | false =>
              obtain ⟨n, hloop⟩ := ih h
              exact ⟨n + 1, .again hstep hloop⟩

theorem Loop.after_steps {n : Nat} (hloop : Loop env m' n r)
    (h : steps env count m = .ok false m') : Loop env m (count + n) r := by
  induction count generalizing m with
  | zero =>
      cases h
      rwa [Nat.zero_add]
  | succ count ih =>
      rw [steps_succ] at h
      cases hstep : step env m with
      | error e next =>
          rw [hstep] at h
          cases h
      | ok finished next =>
          rw [hstep] at h
          cases finished with
          | true => cases h
          | false =>
              rw [Nat.succ_add]
              exact .again hstep (ih h)

theorem Loop.last (h : Loop env m count r) :
    ∃ n m', count = n + 1 ∧ steps env n m = .ok false m' ∧ step env m' = r := by
  induction h with
  | again hstep rest ih =>
      obtain ⟨n, last, hcount, hsteps, hlast⟩ := ih
      refine ⟨n + 1, last, by rw [hcount], ?_, hlast⟩
      rw [steps_succ, hstep]
      exact hsteps
  | done h => exact ⟨0, _, rfl, rfl, h⟩
  | failed h => exact ⟨0, _, rfl, rfl, h⟩

theorem steps_snoc (h : steps env (count + 1) m = .ok false m') :
    ∃ p, steps env count m = .ok false p ∧ step env p = .ok false m' := by
  rw [steps_add] at h
  cases hsteps : steps env count m with
  | error e p =>
      rw [hsteps] at h
      cases h
  | ok finished p =>
      rw [hsteps] at h
      cases finished with
      | true => cases h
      | false =>
          refine ⟨p, rfl, ?_⟩
          change steps env 1 p = _ at h
          rw [steps_succ] at h
          cases hstep : step env p with
          | error e next =>
              rw [hstep] at h
              cases h
          | ok finished next =>
              rw [hstep] at h
              cases finished with
              | true => cases h
              | false => exact h

/-! ## Where the loop steps from -/

structure Arrived (env : Env) (unlocking locking : Script) (count : Nat) (m : Machine) : Prop where
  run : ∃ past, Run env unlocking locking past m
  position : m.position = count
  offset : m.offset < m.script.length

theorem arrived_start (h : start env unlocking locking = .ok m) :
    Arrived env unlocking locking 0 m := by
  suffices hplace : m.position = 0 ∧ m.offset < m.script.length from
    ⟨⟨[], .start h⟩, hplace.1, hplace.2⟩
  obtain ⟨first, second, hstart, rfl⟩ := start_eq_ok_iff.mp h
  have hunlocking := isEmpty_iff hstart.unlockingParses
  have hlocking := isEmpty_iff hstart.lockingParses
  cases hempty : unlocking.isEmpty with
  | true =>
      have hindex : (initial env unlocking locking first second).scriptIndex = 1 := if_pos hempty
      have hsecond : second ≠ [] := fun hnil => hstart.nonempty ⟨hempty, hlocking.mpr hnil⟩
      rw [hunlocking.mp hempty] at hindex ⊢
      refine ⟨?_, ?_⟩
      · rw [Machine.position, hindex]
        rfl
      · rw [script, hindex]
        exact List.length_pos_iff.mpr hsecond
  | false =>
      have hnot : ¬unlocking.isEmpty = true := by simp [hempty]
      have hindex : (initial env unlocking locking first second).scriptIndex = 0 := if_neg hnot
      refine ⟨?_, ?_⟩
      · rw [Machine.position, hindex]
        rfl
      · rw [script, hindex]
        exact List.length_pos_iff.mpr (mt hunlocking.mpr hnot)

theorem arrived_of_steps (h : start env unlocking locking = .ok m)
    (hsteps : steps env count m = .ok false m') : Arrived env unlocking locking count m' := by
  induction count generalizing m' with
  | zero =>
      cases hsteps
      exact arrived_start h
  | succ count ih =>
      obtain ⟨p, hsteps, hstep⟩ := steps_snoc hsteps
      obtain ⟨⟨past, hrun⟩, hposition, -⟩ := ih hsteps
      obtain ⟨hmoved, hmore⟩ := position_of_step hrun.layout.loads hstep
      exact ⟨⟨p :: past, hrun.step hstep⟩, by rw [hmoved, hposition], hmore rfl⟩

theorem Arrived.next (h : Arrived env unlocking locking count m) : ∃ i, m.next? = some i :=
  ⟨_, List.getElem?_eq_getElem h.offset⟩

theorem Arrived.codeStart_le (h : Arrived env unlocking locking count m) :
    m.state.codeStart ≤ m.script.length := by
  obtain ⟨past, hrun⟩ := h.run
  have hle := hrun.signedFrom_le
  have hlt := h.offset
  rw [hrun.codeStart_eq]
  omega

/-! ## How a step fails -/

theorem checkResult_ne_pastEnd {last : Bool} {stack : Stack} (a b : Nat) :
    checkResult env last stack ≠ .error (.pastEnd a b) := by
  intro h
  cases stack with
  | nil => cases h
  | cons item below =>
      rw [checkResult] at h
      split_ifs at h <;> cases h

theorem prepareRedeem_ne_pastEnd (a b : Nat) :
    prepareRedeem env m ≠ .error (.pastEnd a b) := by
  intro h
  unfold prepareRedeem at h
  split_ifs at h
  rw [queueRedeem_eq, takeRedeem_run] at h
  cases hresult : checkResult env false m.state.data with
  | error e =>
      simp only [hresult, Except.error.injEq] at h
      exact checkResult_ne_pastEnd a b (h ▸ hresult)
  | ok u =>
      cases hunlocked : m.unlocked with
      | nil => simp [hresult, hunlocked] at h
      | cons redeem below =>
          cases hparse : Instruction.parse redeem <;> simp [hresult, hunlocked, hparse] at h

theorem of_step_eq_error {i : Instruction} {e : Failure} (hnext : m.next? = some i)
    (h : step env m = .error e m') :
    m'.scripts = m.scripts ∧ m.scriptIndex ≤ m'.scriptIndex ∧ ∀ a b, e ≠ .pastEnd a b := by
  rw [step, hnext] at h
  dsimp only at h
  cases hexec : execute env m.script m.offset i m.state with
  | error e' s =>
      rw [hexec] at h
      cases h
      refine ⟨rfl, Nat.le_refl _, ?_⟩
      rintro a b rfl
      cases execute_failsInside hexec
  | ok u s =>
      rw [hexec] at h
      dsimp only at h
      split_ifs at h
      · cases h
        exact ⟨rfl, Nat.le_refl _, fun a b hcause => by cases hcause⟩
      · unfold endScript at h
        split_ifs at h
        · cases h
          exact ⟨rfl, Nat.le_refl _, fun a b hcause => by cases hcause⟩
        · split at h
          · rename_i cause hprepare
            cases h
            refine ⟨rfl, Nat.le_succ _, ?_⟩
            rintro a b rfl
            exact prepareRedeem_ne_pastEnd a b hprepare
          · cases h

/-! ## The loop ends -/

theorem scripts_of_steps (h : steps env count m = .ok false m') :
    ∃ queued, m'.scripts = m.scripts ++ queued := by
  induction count generalizing m' with
  | zero =>
      cases h
      exact ⟨[], (List.append_nil _).symm⟩
  | succ count ih =>
      obtain ⟨p, hsteps, hstep⟩ := steps_snoc h
      obtain ⟨queued, hp⟩ := ih hsteps
      obtain ⟨queued', hm'⟩ := scripts_of_step hstep
      exact ⟨queued ++ queued', by rw [hm', hp, List.append_assoc]⟩

theorem Arrived.loads (h : Arrived env unlocking locking count m) :
    Loads env unlocking locking m := by
  obtain ⟨past, hrun⟩ := h.run
  exact hrun.layout.loads

/-- The loop steps over what is left of the scripts that are known, and can then go on only if a
script was queued. -/
theorem Arrived.length_lt (h : Arrived env unlocking locking count m)
    (h' : Arrived env unlocking locking (count + m.instructionsLeft) m')
    (hscripts : ∃ queued, m'.scripts = m.scripts ++ queued) :
    m.scripts.length < m'.scripts.length := by
  obtain ⟨queued, hscripts⟩ := hscripts
  rw [hscripts, List.length_append]
  suffices hqueued : queued ≠ [] by
    have hpos := List.length_pos_iff.mpr hqueued
    omega
  rintro rfl
  have hsize : m'.size = m.size := by rw [size, size, hscripts, List.append_nil]
  obtain ⟨hm, -⟩ := size_eq h.offset
  obtain ⟨hm', hpos⟩ := size_eq h'.offset
  rw [h.position] at hm
  rw [h'.position] at hm'
  omega

/-- Twice as many steps as instructions are known at the time are always enough. -/
theorem run_ne_false (h : start env unlocking locking = .ok m) :
    ∀ m', run env m ≠ .ok false m' := by
  intro m₂ hrun
  have h₀ := arrived_start h
  unfold run at hrun
  cases hsteps : steps env m.instructionsLeft m with
  | error e m₁ =>
      rw [hsteps] at hrun
      cases hrun
  | ok done m₁ =>
      rw [hsteps] at hrun
      cases done with
      | true => cases hrun
      | false =>
          have hsteps' : steps env (m.instructionsLeft + m₁.instructionsLeft) m = .ok false m₂ := by
            rw [steps_add, hsteps]
            exact hrun
          have h₁ := arrived_of_steps h hsteps
          have h₂ := arrived_of_steps h hsteps'
          have hgrown := h₀.length_lt (Nat.zero_add _ ▸ h₁) (scripts_of_steps hsteps)
          have hgrown' := h₁.length_lt h₂ (scripts_of_steps hrun)
          -- There are two scripts at the start and never more than three.
          have htwo : m.scripts.length = 2 := by
            obtain ⟨first, second, -, rfl⟩ := start_eq_ok_iff.mp h
            rfl
          have hthree := h₂.loads.length_le
          omega

theorem exists_loop (h : start env unlocking locking = .ok m) :
    ∃ count, Loop env m count (run env m) := by
  have hends := run_ne_false h
  unfold run at hends ⊢
  cases hsteps : steps env m.instructionsLeft m with
  | error e m₁ => exact exists_loop_of_steps hsteps fun _ hfalse => by cases hfalse
  | ok done m₁ =>
      rw [hsteps] at hends
      cases done with
      | true => exact exists_loop_of_steps hsteps fun _ hfalse => by cases hfalse
      | false =>
          obtain ⟨n, hloop⟩ := exists_loop_of_steps rfl hends
          exact ⟨_, hloop.after_steps hsteps⟩

theorem Arrived.loads_left (h : Arrived env unlocking locking count m) :
    m.size ≤ (left (step env m)).size ∧ Loads env unlocking locking (left (step env m)) := by
  obtain ⟨past, hrun⟩ := h.run
  cases hstep : step env m with
  | error e m' =>
      obtain ⟨i, hnext⟩ := h.next
      obtain ⟨hscripts, hindex, -⟩ := of_step_eq_error hnext hstep
      refine ⟨?_, hrun.layout.loads.mono hscripts hindex⟩
      rw [left, size, size, hscripts]
  | ok done m' =>
      obtain ⟨queued, hscripts⟩ := scripts_of_step hstep
      refine ⟨?_, (hrun.step hstep).layout.loads⟩
      rw [left, size, size, hscripts, List.flatten_append, List.length_append]
      exact Nat.le_add_right _ _

theorem Loop.within (hloop : Loop env m count r) (h : start env unlocking locking = .ok m) :
    count ≤ (left r).size ∧ Loads env unlocking locking (left r) := by
  obtain ⟨n, last, rfl, hsteps, rfl⟩ := hloop.last
  have harrived := arrived_of_steps h hsteps
  obtain ⟨hsize, hloads⟩ := harrived.loads_left
  refine ⟨?_, hloads⟩
  obtain ⟨hlast, hpos⟩ := size_eq harrived.offset
  rw [harrived.position] at hlast
  omega

theorem Loop.ne_pastEnd (hloop : Loop env m count r) (h : start env unlocking locking = .ok m)
    (a b : Nat) : r ≠ .error (.pastEnd a b) (left r) := by
  intro hr
  obtain ⟨n, last, -, hsteps, hlast⟩ := hloop.last
  obtain ⟨i, hnext⟩ := (arrived_of_steps h hsteps).next
  exact (of_step_eq_error hnext (hlast.trans hr)).2.2 a b rfl

theorem start_ne_pastEnd (a b : Nat) : start env unlocking locking ≠ .error (.pastEnd a b) := by
  rw [start_eq]
  intro h
  split_ifs at h <;> try cases h
  split at h
  · cases h
  · cases h
  · split_ifs at h <;> cases h

theorem evaluate_ne_pastEnd (env : Env) (unlocking locking : Script) (a b : Nat) :
    (evaluate env unlocking locking).result ≠ .error (.pastEnd a b) := by
  intro hresult
  cases hstart : start env unlocking locking with
  | error e =>
      rw [evaluate_of_start_error hstart] at hresult
      cases hresult
      exact start_ne_pastEnd a b hstart
  | ok m =>
      obtain ⟨count, hloop⟩ := exists_loop hstart
      have hnever := hloop.ne_pastEnd hstart a b
      have hends := run_ne_false hstart
      rw [evaluate_eq_conclude hstart] at hresult
      cases hrun : run env m with
      | error e m' =>
          rw [hrun] at hnever hresult
          cases hresult
          exact hnever rfl
      | ok done m' =>
          rw [hrun] at hresult
          cases done with
          | true => exact checkResult_ne_pastEnd a b hresult
          | false => exact hends m' hrun

/-! ## The scripts are never left -/

/-- Where the loop steps there is an instruction to execute, a signature opcode cuts the script
within its length, and the byte that the test for short pushes looks at is there. -/
structure Stays (env : Env) (m : Machine) : Prop where
  next : ∃ i, m.next? = some i
  cut : ∀ i t, m.next? = some i → CutsIn env i m.state t → t.codeStart ≤ m.script.length
  firstByte : ∀ script ∈ m.scripts, ∀ i ∈ script, i.op = 1 → ∃ b, i.data = [b]
  notPastEnd : ∀ e m', step env m = .error e m' → ∀ a b, e ≠ .pastEnd a b

theorem Loads.fits (h : Loads env unlocking locking m) :
    ∀ script ∈ m.scripts, ∀ i ∈ script, i.Fits := by
  have hparsed : ∀ {bs : Bytes} {is : List Instruction}, Instruction.parse bs = .ok is →
      ∀ i ∈ is, i.Fits := fun hparse => (Instruction.parse_eq_ok_iff.mp hparse).1
  cases h with
  | both hstart hscripts =>
      rw [hscripts]
      simpa using ⟨hparsed hstart.unlockingParses, hparsed hstart.lockingParses⟩
  | redeem hstart hcalls htop hparse hindex hscripts =>
      rw [hscripts]
      simpa using ⟨hparsed hstart.unlockingParses, hparsed hstart.lockingParses, hparsed hparse⟩

theorem Arrived.stays (h : Arrived env unlocking locking count m) : Stays env m where
  next := h.next
  cut i t _ hcut := by
    rw [hcut.codeStart]
    exact h.codeStart_le
  firstByte script hscript i hi hop := (h.loads.fits script hscript i hi).data_of_op_one hop
  notPastEnd e m' hstep := by
    obtain ⟨i, hnext⟩ := h.next
    exact (of_step_eq_error hnext hstep).2.2

/-- A spend that starts is run to its end in at most as many steps as its scripts have instructions,
and never runs out of them. -/
theorem run_terminates (h : start env unlocking locking = .ok m) :
    (∃ count, Loop env m count (run env m) ∧ count ≤ (left (run env m)).size ∧
      Loads env unlocking locking (left (run env m))) ∧
    (∀ count m', steps env count m = .ok false m' →
      Stays env m' ∧ Loads env unlocking locking m') ∧
    ∀ a b, (evaluate env unlocking locking).result ≠ .error (.pastEnd a b) := by
  refine ⟨?_, fun count m' hsteps => ?_, evaluate_ne_pastEnd env unlocking locking⟩
  · obtain ⟨count, hloop⟩ := exists_loop h
    exact ⟨count, hloop, hloop.within h⟩
  · have harrived := arrived_of_steps h hsteps
    exact ⟨harrived.stays, harrived.loads⟩

/-- A signature, a key and a redeem script that checks them. -/
theorem run_terminates_payToScript :
    callsForRedeem trustingEnv (payToScript ⟨[0xac]⟩) = true ∧
    ∃ m, start trustingEnv ⟨[2, 0x30, 0x01, 2, 0x02, 0x03, 1, 0xac]⟩ (payToScript ⟨[0xac]⟩) =
        .ok m ∧
      ∃ count, Loop trustingEnv m count (run trustingEnv m) ∧
        count ≤ (left (run trustingEnv m)).size := by
  have h : Redeemable trustingEnv ⟨[2, 0x30, 0x01, 2, 0x02, 0x03]⟩ ⟨[0xac]⟩
      ⟨[2, 0x30, 0x01, 2, 0x02, 0x03, 1, 0xac]⟩ [⟨2, [0x30, 0x01]⟩, ⟨2, [0x02, 0x03]⟩] := {
    parses := Instruction.parse_eq_ok_iff.mpr ⟨by decide, rfl⟩
    pushOnly := by decide
    room := by decide
    redeemSize := by decide
    plain := by decide
    appended := rfl
    size := by decide }
  have hstart := start_eq_ok_iff.mpr ⟨_, _, h.startable_hashed rfl rfl, rfl⟩
  obtain ⟨⟨count, hloop, hcount, -⟩, -⟩ := run_terminates hstart
  exact ⟨Redeemable.callsForRedeem_hashed (by decide) _, _, hstart, count, hloop, hcount⟩

end Machine

end UtxoSpend
