import Mathlib
import UtxoSpend.Proofs.Machine.Phases

/-!
# Getting to the locking script

The place of the machine, script before offset, only moves forward, so the machine is at the start
of the locking script at most once.  Main statement: it gets there with exactly the state that the
unlocking script leaves when it is run on its own.
-/

namespace UtxoSpend.Machine

open Exec

variable {env : Env}

def ReachesLocking (env : Env) (unlocking locking : Script) (m : Machine) : Prop :=
  ∃ first count, start env unlocking locking = .ok first ∧ steps env count first = .ok false m ∧
    m.scriptIndex = 1 ∧ m.offset = 0

def Before (a b : Machine) : Prop :=
  a.scriptIndex < b.scriptIndex ∨ a.scriptIndex = b.scriptIndex ∧ a.offset < b.offset

theorem Before.trans {a b c : Machine} (hab : Before a b) (hbc : Before b c) : Before a c := by
  unfold Before at *
  omega

theorem Before.ne {a b : Machine} (h : Before a b) :
    ¬(a.scriptIndex = b.scriptIndex ∧ a.offset = b.offset) := by
  unfold Before at h
  omega

/-- A step that succeeds executes the instruction at its place, and then goes on in the script or
ends it. -/
theorem of_step_eq_ok {m m' : Machine} {done : Bool} (h : step env m = .ok done m') :
    ∃ i s, m.next? = some i ∧ executeBounded env m.script m.offset i m.state = .ok () s ∧
      (m.offset + 1 < m.script.length ∧ done = false ∧ m' = m.passed s ∨
        m.script.length ≤ m.offset + 1 ∧ endScript env (m.passed s) = .ok done m') := by
  cases hnext : m.next? with
  | none =>
      rw [step, hnext] at h
      cases h
  | some i =>
      cases hexec : executeBounded env m.script m.offset i m.state with
      | error e s =>
          obtain ⟨m'', -, hstep⟩ := step_of_error hnext hexec
          rw [hstep] at h
          cases h
      | ok u s =>
          rw [step_of_ok hnext hexec] at h
          refine ⟨i, s, rfl, hexec, ?_⟩
          split_ifs at h with hlt
          · cases h
            exact .inl ⟨hlt, rfl, rfl⟩
          · exact .inr ⟨Nat.le_of_not_lt hlt, h⟩

theorem queueRedeem_eq_ok {m m' : Machine} (h : queueRedeem env m = .ok m') :
    ∃ redeem below third, m.unlocked = redeem :: below ∧ Instruction.parse redeem = .ok third ∧
      m' = { m with
        scripts := m.scripts ++ [third]
        unlocked := []
        state := { m.state with data := below } } := by
  rw [queueRedeem_eq, takeRedeem_run] at h
  cases hresult : checkResult env false m.state.data with
  | error e => simp [hresult] at h
  | ok u =>
      cases hunlocked : m.unlocked with
      | nil => simp [hresult, hunlocked] at h
      | cons redeem below =>
          cases hparse : Instruction.parse redeem with
          | error e => simp [hresult, hunlocked, hparse] at h
          | ok third =>
              simp only [hresult, hunlocked, hparse, Except.ok.injEq] at h
              exact ⟨redeem, below, third, rfl, hparse, h.symm⟩

theorem prepareRedeem_eq_ok {m m' : Machine} (h : prepareRedeem env m = .ok m') :
    m' = m ∨
      (m.redeems = true ∧ m.scriptIndex = 1) ∧ m' = { m with unlocked := m.state.data } ∨
      (m.redeems = true ∧ m.scriptIndex = 2) ∧ queueRedeem env m = .ok m' := by
  unfold prepareRedeem at h
  split_ifs at h with hlocking hredeem
  · cases h
    rw [Bool.and_eq_true, beq_iff_eq] at hlocking
    exact .inr (.inl ⟨hlocking, rfl⟩)
  · rw [Bool.and_eq_true, beq_iff_eq] at hredeem
    exact .inr (.inr ⟨hredeem, h⟩)
  · cases h
    exact .inl rfl

theorem endScript_eq_ok {m m' : Machine} {done : Bool} (h : endScript env m = .ok done m') :
    ∃ next, prepareRedeem env m.advance = .ok next ∧ m' = next.skipEmpty ∧
      m.state.branches = [] ∧ done = decide (m'.scripts.length ≤ m'.scriptIndex) := by
  unfold endScript at h
  split_ifs at h with hopen
  split at h
  · cases h
  · rename_i next hprepare
    cases h
    exact ⟨next, hprepare, rfl, by simpa using hopen, rfl⟩

theorem scriptIndex_of_prepareRedeem {m m' : Machine} (h : prepareRedeem env m = .ok m') :
    m'.scriptIndex = m.scriptIndex := by
  obtain rfl | ⟨-, rfl⟩ | ⟨-, hqueue⟩ := prepareRedeem_eq_ok h
  · rfl
  · rfl
  · obtain ⟨redeem, below, third, -, -, rfl⟩ := queueRedeem_eq_ok hqueue
    rfl

theorem scriptIndex_lt_of_endScript {m m' : Machine} {done : Bool}
    (h : endScript env m = .ok done m') : m.scriptIndex < m'.scriptIndex := by
  obtain ⟨next, hprepare, rfl, -⟩ := endScript_eq_ok h
  have hindex : next.scriptIndex = m.scriptIndex + 1 := scriptIndex_of_prepareRedeem hprepare
  obtain heq | heq := skipEmpty_eq next <;> rw [heq]
  · omega
  · dsimp only
    omega

theorem before_of_step {m m' : Machine} {done : Bool} (h : step env m = .ok done m') :
    Before m m' := by
  obtain ⟨i, s, -, -, ⟨-, -, rfl⟩ | ⟨-, hend⟩⟩ := of_step_eq_ok h
  · exact .inr ⟨rfl, Nat.lt_succ_self _⟩
  · have hlt : (m.passed s).scriptIndex < m'.scriptIndex := scriptIndex_lt_of_endScript hend
    exact .inl hlt

theorem before_of_steps {count : Nat} {m m' : Machine}
    (h : steps env (count + 1) m = .ok false m') : Before m m' := by
  induction count generalizing m with
  | zero =>
      rw [steps_succ] at h
      cases hstep : step env m with
      | error e next => simp [hstep, resume] at h
      | ok done next =>
          have hbefore := before_of_step hstep
          cases done
          · rw [hstep] at h
            cases h
            exact hbefore
          · simp [hstep, resume] at h
  | succ count ih =>
      rw [steps_succ] at h
      cases hstep : step env m with
      | error e next => simp [hstep, resume] at h
      | ok done next =>
          cases done
          · rw [hstep] at h
            exact (before_of_step hstep).trans (ih h)
          · simp [hstep, resume] at h

/-- Of two machines of one run, one is the other some steps later. -/
theorem steps_of_le {a b : Nat} {m p q : Machine} (hab : a ≤ b) (hp : steps env a m = .ok false p)
    (hq : steps env b m = .ok false q) : steps env (b - a) p = .ok false q := by
  have hsum : a + (b - a) = b := Nat.add_sub_of_le hab
  rw [← hsum, steps_add, hp] at hq
  exact hq

theorem eq_of_place_of_le {a b : Nat} {m p q : Machine} (hab : a ≤ b)
    (hp : steps env a m = .ok false p) (hq : steps env b m = .ok false q)
    (hindex : p.scriptIndex = q.scriptIndex) (hoffset : p.offset = q.offset) : p = q := by
  have hsteps := steps_of_le hab hp hq
  cases h : b - a with
  | zero =>
      rw [h] at hsteps
      cases hsteps
      rfl
  | succ count =>
      rw [h] at hsteps
      exact absurd ⟨hindex, hoffset⟩ (before_of_steps hsteps).ne

/-- A run is at every place at most once. -/
theorem eq_of_place {a b : Nat} {m p q : Machine} (hp : steps env a m = .ok false p)
    (hq : steps env b m = .ok false q) (hindex : p.scriptIndex = q.scriptIndex)
    (hoffset : p.offset = q.offset) : p = q := by
  rcases Nat.le_total a b with hab | hba
  · exact eq_of_place_of_le hab hp hq hindex hoffset
  · exact (eq_of_place_of_le hba hq hp hindex.symm hoffset.symm).symm

theorem scriptIndex_of_steps {count : Nat} {m m' : Machine}
    (h : steps env count m = .ok false m') (hcount : m.offset + count < m.script.length) :
    m'.scriptIndex = m.scriptIndex := by
  induction count generalizing m with
  | zero =>
      cases h
      rfl
  | succ count ih =>
      rw [steps_succ] at h
      cases hstep : step env m with
      | error e next => simp [hstep, resume] at h
      | ok done next =>
          obtain ⟨i, s, -, -, ⟨-, rfl, rfl⟩ | ⟨hend, -⟩⟩ := of_step_eq_ok hstep
          · rw [hstep] at h
            have hnext : (m.passed s).offset + count < (m.passed s).script.length := by
              change m.offset + 1 + count < m.script.length
              omega
            exact ih (m := m.passed s) h hnext
          · omega

theorem steps_to_locking {m : Machine} {first second : List Instruction} {s : State}
    (hscripts : m.scripts = [first, second]) (hindex : m.scriptIndex = 0) (hoffset : m.offset = 0)
    (hfirst : first ≠ []) (hsecond : second ≠ []) (h : runScript env first m.state = .ok () s) :
    steps env first.length m = .ok false (m.atLocking s) := by
  rw [steps_past_first hscripts hindex hoffset hfirst h,
    skipEmpty_atLocking hscripts hindex hsecond, List.isEmpty_eq_false_iff.mpr hsecond]

theorem runScript_of_steps {m m' : Machine} {first second : List Instruction} {count : Nat}
    (hscripts : m.scripts = [first, second]) (hindex : m.scriptIndex = 0) (hoffset : m.offset = 0)
    (hfirst : first ≠ []) (hsteps : steps env count m = .ok false m')
    (hlater : m'.scriptIndex = 1) : ∃ s, runScript env first m.state = .ok () s := by
  have hscript : m.script = first := by simp [script, hscripts, hindex]
  rw [← hscript] at hfirst ⊢
  cases h : runScript env m.script m.state with
  | ok u s => exact ⟨s, rfl⟩
  | error e s =>
      obtain ⟨failed, -, hfailed⟩ := steps_of_runScript_error 0 hoffset hfirst h
      rw [Nat.add_zero] at hfailed
      by_cases hcount : count < m.script.length
      · have hsame := scriptIndex_of_steps hsteps (by rw [hoffset]; omega)
        omega
      · have hsum : m.script.length + (count - m.script.length) = count := by omega
        rw [← hsum, steps_add, hfailed] at hsteps
        cases hsteps

theorem runScript_of_reachesLocking {unlocking locking : Script} {second : List Instruction}
    {m : Machine} (hparse : locking.instructions = .ok second) (hne : second ≠ [])
    (h : ReachesLocking env unlocking locking m) :
    ∃ first, Startable env unlocking locking first second ∧
      runScript env first {} = .ok () m.state := by
  obtain ⟨m₀, count, hstart, hsteps, hindex, hoffset⟩ := h
  obtain ⟨first, second', h, rfl⟩ := start_eq_ok_iff.mp hstart
  have hsame : second' = second := by
    have hparse' := h.lockingParses
    rw [hparse] at hparse'
    cases hparse'
    rfl
  subst hsame
  refine ⟨first, h, ?_⟩
  -- The run to the locking script is compared with the given one: both are there only once.
  by_cases hfirst : first = []
  · have hempty := (isEmpty_iff h.unlockingParses).mpr hfirst
    have hplace : 1 = m.scriptIndex := hindex.symm
    have hzero : steps env 0 (initial env unlocking locking first second') =
        .ok false (initial env unlocking locking first second') := rfl
    have heq := eq_of_place hzero hsteps (hplace ▸ if_pos hempty) hoffset.symm
    rw [← heq, hfirst]
    exact runScript_nil rfl
  · have hempty := mt (isEmpty_iff h.unlockingParses).mp hfirst
    have hfrom : (initial env unlocking locking first second').scriptIndex = 0 := if_neg hempty
    obtain ⟨s, hrun⟩ := runScript_of_steps rfl hfrom rfl hfirst hsteps hindex
    have harrived := steps_to_locking rfl hfrom rfl hfirst hne hrun
    have hplace : (atLocking (initial env unlocking locking first second') s).scriptIndex =
        m.scriptIndex := by
      rw [hindex, atLocking, entering, hfrom]
    have heq := eq_of_place harrived hsteps hplace hoffset.symm
    rw [← heq]
    exact hrun

theorem exists_reachesLocking {unlocking locking : Script} {first second : List Instruction}
    {s : State} (h : Startable env unlocking locking first second) (hne : second ≠ [])
    (hrun : runScript env first {} = .ok () s) :
    ∃ m, ReachesLocking env unlocking locking m ∧ m.state = s := by
  have hstart := start_eq_ok_iff.mpr ⟨first, second, h, rfl⟩
  by_cases hfirst : first = []
  · have hempty := (isEmpty_iff h.unlockingParses).mpr hfirst
    rw [hfirst, runScript_nil rfl] at hrun
    cases hrun
    exact ⟨_, ⟨_, 0, hstart, rfl, if_pos hempty, rfl⟩, rfl⟩
  · have hempty := mt (isEmpty_iff h.unlockingParses).mp hfirst
    have hfrom : (initial env unlocking locking first second).scriptIndex = 0 := if_neg hempty
    have harrived := steps_to_locking rfl hfrom rfl hfirst hne hrun
    refine ⟨_, ⟨_, first.length, hstart, harrived, ?_, rfl⟩, rfl⟩
    rw [atLocking, entering, hfrom]

/-- The machine gets to the locking script exactly if the unlocking script runs to its end, and
with the state that this run leaves. -/
theorem reachesLocking_iff {unlocking locking : Script} {second : List Instruction} {s : State}
    (hparse : locking.instructions = .ok second) (hne : second ≠ []) :
    (∃ m, ReachesLocking env unlocking locking m ∧ m.state = s) ↔
      ∃ first, Startable env unlocking locking first second ∧
        runScript env first {} = .ok () s := by
  constructor
  · rintro ⟨m, h, rfl⟩
    exact runScript_of_reachesLocking hparse hne h
  · rintro ⟨first, h, hrun⟩
    exact exists_reachesLocking h hne hrun

end UtxoSpend.Machine
