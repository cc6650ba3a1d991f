import Mathlib
import UtxoSpend.Proofs.Effect
import UtxoSpend.Proofs.Machine.Start
import UtxoSpend.Proofs.Script.Parsing

/-!
# A spend as a sequence of scripts

The machine moves a program counter through its scripts, may queue a script while it runs, and
passes over empty ones.  Here the same spend is written as whole scripts, one after the other, each
a recursion on its instructions.  Main statement: the machine evaluates every spend to the outcome
of that sequence, so facts about runs are proved script by script and never by stepping.
-/

namespace UtxoSpend

namespace Exec

def executeBounded (env : Env) (script : List Instruction) (offset : Nat) (i : Instruction) :
    Exec Unit := do
  execute env script offset i
  let s ← get
  failIf (env.limits.stackItems < s.depth) (.stackOverflow s.depth env.limits.stackItems)

theorem executeBounded_run (env : Env) (script : List Instruction) (offset : Nat)
    (i : Instruction) (s : State) :
    executeBounded env script offset i s =
      match execute env script offset i s with
      | .error e t => .error e t
      | .ok () t =>
        if env.limits.stackItems < t.depth then
          .error (.stackOverflow t.depth env.limits.stackItems) t
        else .ok () t := by
  rw [executeBounded]
  cases h : execute env script offset i s with
  | error e t => rw [Effect.bind_of_error h]
  | ok u t =>
      rw [Effect.bind_of_ok h, Effect.get_bind_run, failIf]
      simp

def runFrom (env : Env) (script : List Instruction) : Nat → List Instruction → Exec Unit
  | _, [] => pure ()
  | offset, i :: rest => do
    executeBounded env script offset i
    runFrom env script (offset + 1) rest

def runScript (env : Env) (script : List Instruction) : Exec Unit := do
  runFrom env script 0 script
  failIf (!(← get).branches.isEmpty) .openConditional
  modify State.nextScript

theorem runScript_run (env : Env) (script : List Instruction) (s : State) :
    runScript env script s =
      match runFrom env script 0 script s with
      | .error e t => .error e t
      | .ok () t =>
        if t.branches.isEmpty then .ok () t.nextScript else .error .openConditional t := by
  rw [runScript]
  cases h : runFrom env script 0 script s with
  | error e t => rw [Effect.bind_of_error h]
  | ok u t =>
      rw [Effect.bind_of_ok h, Effect.get_bind_run]
      cases hopen : t.branches.isEmpty <;>
        simp [failIf, hopen, bind, EStateM.bind]

theorem runScript_eq_ok_iff {env : Env} {script : List Instruction} {s t : State} :
    runScript env script s = .ok () t ↔
      ∃ u, runFrom env script 0 script s = .ok () u ∧ u.branches = [] ∧ t = u.nextScript := by
  rw [runScript_run]
  cases runFrom env script 0 script s with
  | error e u => simp
  | ok x u => cases hbranches : u.branches <;> simp [hbranches, eq_comm]

/-- Requires the locking script to have succeeded, and takes the redeem script from the top of the
stack that the unlocking script left. -/
def takeRedeem (env : Env) (unlocked : Stack) : Exec (List Instruction) := do
  test (Machine.checkResult env false (← get).data)
  match unlocked with
  | [] => throw .noRedeemScript
  | redeem :: below =>
    match Instruction.parse redeem with
    | .error e => throw (.malformed e)
    | .ok third =>
      modify fun s => { s with data := below }
      return third

theorem takeRedeem_run (env : Env) (unlocked : Stack) (s : State) :
    takeRedeem env unlocked s =
      match Machine.checkResult env false s.data, unlocked with
      | .error e, _ => .error e s
      | .ok (), [] => .error .noRedeemScript s
      | .ok (), redeem :: below =>
        match Instruction.parse redeem with
        | .error e => .error (.malformed e) s
        | .ok third => .ok third { s with data := below } := by
  unfold takeRedeem
  rw [Effect.get_bind_run]
  cases Machine.checkResult env false s.data with
  | error e => rfl
  | ok u =>
      cases unlocked with
      | nil => rfl
      | cons redeem below =>
          rw [Effect.bind_of_ok (show test (.ok u) s = .ok u s from rfl)]
          dsimp only
          cases Instruction.parse redeem <;> rfl

theorem takeRedeem_error {env : Env} {unlocked : Stack} {s t : State} {e : Failure}
    (h : takeRedeem env unlocked s = .error e t) : t = s := by
  rw [takeRedeem_run] at h
  split at h
  · cases h
    rfl
  · cases h
    rfl
  · split at h
    · cases h
      rfl
    · cases h

theorem takeRedeem_ok {env : Env} {unlocked : Stack} {s t : State} {third : List Instruction}
    (h : takeRedeem env unlocked s = .ok third t) : ∃ below, t = { s with data := below } := by
  rw [takeRedeem_run] at h
  split at h
  · cases h
  · cases h
  · split at h
    · cases h
    · cases h
      exact ⟨_, rfl⟩

def runLast (env : Env) (script : List Instruction) : Exec Unit := do
  runScript env script
  test (Machine.checkResult env true (← get).data)

def runLocking (env : Env) (locking : List Instruction) (redeems : Bool) (unlocked : Stack) :
    Exec Unit :=
  if redeems then do
    runScript env locking
    runLast env (← takeRedeem env unlocked)
  else runLast env locking

theorem runLocking_false (env : Env) (locking : List Instruction) (unlocked : Stack) :
    runLocking env locking false unlocked = runLast env locking := rfl

theorem runLocking_true (env : Env) (locking : List Instruction) (unlocked : Stack) :
    runLocking env locking true unlocked =
      (do runScript env locking; runLast env (← takeRedeem env unlocked)) := rfl

/-- The scripts of a spend, each on the stack that the one before left. -/
def runSpend (env : Env) (unlocking locking : List Instruction) (redeems : Bool) : Exec Unit := do
  runScript env unlocking
  runLocking env locking redeems (← get).data

end Exec

def Outcome.ofRun : EStateM.Result Failure State Unit → Outcome
  | .ok () s => ⟨.ok (), s.checks⟩
  | .error e s => ⟨.error e, s.checks⟩

namespace Machine

open Exec

variable {env : Env}

/-! ## Steps within a script -/

def resume (env : Env) (count : Nat) :
    EStateM.Result Failure Machine Bool → EStateM.Result Failure Machine Bool
  | .ok false m => steps env count m
  | result => result

theorem steps_succ (env : Env) (count : Nat) (m : Machine) :
    steps env (count + 1) m = resume env count (step env m) := by
  rw [steps]
  cases step env m with
  | ok done m => cases done <;> rfl
  | error e m => rfl

theorem steps_add (a b : Nat) (m : Machine) :
    steps env (a + b) m = resume env b (steps env a m) := by
  induction a generalizing m with
  | zero =>
      rw [Nat.zero_add]
      rfl
  | succ a ih =>
      rw [Nat.succ_add, steps_succ, steps_succ]
      cases step env m with
      | ok done m =>
          cases done
          · exact ih m
          · rfl
      | error e m => rfl

def passed (m : Machine) (s : State) : Machine := { m with state := s, offset := m.offset + 1 }

theorem step_of_ok {m : Machine} {i : Instruction} {s : State} (hnext : m.next? = some i)
    (h : executeBounded env m.script m.offset i m.state = .ok () s) :
    step env m = if m.offset + 1 < m.script.length then .ok false (m.passed s)
      else endScript env (m.passed s) := by
  rw [executeBounded_run] at h
  rw [step, hnext]
  dsimp only
  cases hexec : execute env m.script m.offset i m.state with
  | error e t => simp [hexec] at h
  | ok u t =>
      rw [hexec] at h
      dsimp only at h ⊢
      split at h
      · cases h
      · rename_i hdepth
        cases h
        rw [if_neg hdepth]
        rfl

theorem step_of_error {m : Machine} {i : Instruction} {e : Failure} {s : State}
    (hnext : m.next? = some i)
    (h : executeBounded env m.script m.offset i m.state = .error e s) :
    ∃ m', m'.state = s ∧ step env m = .error e m' := by
  rw [executeBounded_run] at h
  rw [step, hnext]
  dsimp only
  cases hexec : execute env m.script m.offset i m.state with
  | error e' t =>
      rw [hexec] at h
      cases h
      exact ⟨_, rfl, rfl⟩
  | ok u t =>
      rw [hexec] at h
      dsimp only at h ⊢
      split at h
      · rename_i hdepth
        cases h
        rw [if_pos hdepth]
        exact ⟨_, rfl, rfl⟩
      · cases h

def atEnd (m : Machine) (s : State) : Machine := { m with state := s, offset := m.script.length }

theorem next?_of_drop {m : Machine} {i : Instruction} {rest : List Instruction}
    (h : m.script.drop m.offset = i :: rest) : m.next? = some i := by
  rw [next?, ← List.head?_drop, h]
  rfl

theorem lt_length_of_drop {is rest : List Instruction} {i : Instruction} {n : Nat}
    (h : is.drop n = i :: rest) : n < is.length := by
  have hlength := congrArg List.length h
  rw [List.length_drop, List.length_cons] at hlength
  omega

theorem steps_of_runFrom_ok {m : Machine} {rest : List Instruction} {s : State} (k : Nat)
    (hne : rest ≠ []) (hrest : m.script.drop m.offset = rest)
    (h : runFrom env m.script m.offset rest m.state = .ok () s) :
    steps env (rest.length + k) m = resume env k (endScript env (m.atEnd s)) := by
  -- The machine moves on with what is left of its script.
  induction rest generalizing m with
  | nil => exact absurd rfl hne
  | cons i rest ih =>
      obtain ⟨u, t, hexec, hrun⟩ := Effect.bind_eq_ok.mp h
      have hstep := step_of_ok (next?_of_drop hrest) hexec
      have hdrop : m.script.drop (m.offset + 1) = rest := by
        rw [← List.drop_drop, hrest]
        rfl
      rw [List.length_cons, Nat.add_right_comm, steps_succ, hstep]
      cases rest with
      | nil =>
          have hlt := lt_length_of_drop hrest
          have hle := List.drop_eq_nil_iff.mp hdrop
          have hlen : m.script.length = m.offset + 1 := by omega
          cases hrun
          rw [if_neg (by omega), List.length_nil, Nat.zero_add, passed, atEnd, hlen]
      | cons j rest =>
          rw [if_pos (lt_length_of_drop hdrop)]
          exact ih (List.cons_ne_nil j rest) hdrop hrun

theorem steps_of_runFrom_error {m : Machine} {rest : List Instruction} {e : Failure} {s : State}
    (k : Nat) (hrest : m.script.drop m.offset = rest)
    (h : runFrom env m.script m.offset rest m.state = .error e s) :
    ∃ m', m'.state = s ∧ steps env (rest.length + k) m = .error e m' := by
  induction rest generalizing m with
  | nil => cases h
  | cons i rest ih =>
      have hdrop : m.script.drop (m.offset + 1) = rest := by
        rw [← List.drop_drop, hrest]
        rfl
      rw [List.length_cons, Nat.add_right_comm, steps_succ]
      cases hexec : executeBounded env m.script m.offset i m.state with
      | error e' t =>
          rw [runFrom, Effect.bind_of_error hexec] at h
          cases h
          obtain ⟨m', hstate, hstep⟩ := step_of_error (next?_of_drop hrest) hexec
          rw [hstep]
          exact ⟨m', hstate, rfl⟩
      | ok u t =>
          rw [runFrom, Effect.bind_of_ok hexec] at h
          rw [step_of_ok (next?_of_drop hrest) hexec]
          cases rest with
          | nil => cases h
          | cons j rest =>
              rw [if_pos (lt_length_of_drop hdrop)]
              exact ih hdrop h

/-! ## Whole scripts -/

def entering (m : Machine) (s : State) : Machine :=
  { m with scriptIndex := m.scriptIndex + 1, offset := 0, state := s }

def enter (env : Env) (m : Machine) : EStateM.Result Failure Machine Bool :=
  match prepareRedeem env m with
  | .error e => .error e m
  | .ok m => .ok (m.skipEmpty.scripts.length ≤ m.skipEmpty.scriptIndex) m.skipEmpty

theorem skipEmpty_eq (m : Machine) :
    m.skipEmpty = m ∨ m.skipEmpty = { m with scriptIndex := m.scriptIndex + 1 } := by
  unfold skipEmpty
  split_ifs
  · exact .inr rfl
  · exact .inl rfl

theorem state_skipEmpty (m : Machine) : m.skipEmpty.state = m.state := by
  obtain heq | heq := skipEmpty_eq m <;> rw [heq]

theorem endScript_atEnd (m : Machine) (s : State) :
    endScript env (m.atEnd s) =
      if s.branches.isEmpty then enter env (m.entering s.nextScript)
      else .error .openConditional (m.atEnd s) := by
  rw [endScript]
  cases h : s.branches.isEmpty
  · simp [atEnd, h]
  · simp [atEnd, h]
    rfl

theorem steps_of_runScript_ok {m : Machine} {s : State} (k : Nat) (hoffset : m.offset = 0)
    (hne : m.script ≠ []) (h : runScript env m.script m.state = .ok () s) :
    steps env (m.script.length + k) m = resume env k (enter env (m.entering s)) := by
  have hrest : m.script.drop m.offset = m.script := by rw [hoffset, List.drop_zero]
  rw [runScript_run] at h
  split at h
  · cases h
  · rename_i t hrun
    rw [← hoffset] at hrun
    rw [steps_of_runFrom_ok k hne hrest hrun, endScript_atEnd]
    split at h
    · rename_i hclosed
      cases h
      rw [if_pos hclosed]
    · cases h

theorem steps_of_runScript_error {m : Machine} {e : Failure} {s : State} (k : Nat)
    (hoffset : m.offset = 0) (hne : m.script ≠ [])
    (h : runScript env m.script m.state = .error e s) :
    ∃ m', m'.state = s ∧ steps env (m.script.length + k) m = .error e m' := by
  have hrest : m.script.drop m.offset = m.script := by rw [hoffset, List.drop_zero]
  rw [runScript_run] at h
  split at h
  · rename_i e' t hrun
    cases h
    rw [← hoffset] at hrun
    exact steps_of_runFrom_error k hrest hrun
  · rename_i t hrun
    rw [← hoffset] at hrun
    rw [steps_of_runFrom_ok k hne hrest hrun, endScript_atEnd]
    split at h
    · cases h
    · rename_i hopen
      cases h
      rw [if_neg hopen]
      exact ⟨_, rfl, rfl⟩

theorem nextScript_of_runScript {script : List Instruction} {s t : State}
    (h : runScript env script s = .ok () t) : t.nextScript = t := by
  rw [runScript_run] at h
  split at h
  · cases h
  · split at h
    · cases h
      rfl
    · cases h

theorem runScript_nil {s : State} (h : s.nextScript = s) : runScript env [] s = .ok () s := by
  have hbranches : s.branches = [] := by rw [← h]; rfl
  rw [runScript_run]
  simp [runFrom, hbranches, h]

/-! ## From the machine to its outcome -/

def conclude (env : Env) : EStateM.Result Failure Machine Bool → Outcome
  | .error e m => ⟨.error e, m.state.checks⟩
  | .ok true m => ⟨checkResult env true m.state.data, m.state.checks⟩
  | .ok false m => ⟨.error (.pastEnd m.scriptIndex m.offset), m.state.checks⟩

theorem evaluate_eq_conclude {unlocking locking : Script} {m : Machine}
    (h : start env unlocking locking = .ok m) :
    evaluate env unlocking locking = conclude env (run env m) := by
  rw [evaluate, h]
  dsimp only
  cases run env m with
  | error e m => rfl
  | ok done m => cases done <;> rfl

theorem runLast_of_error {script : List Instruction} {e : Failure} {s t : State}
    (h : runScript env script s = .error e t) : runLast env script s = .error e t := by
  rw [runLast, Effect.bind_of_error h]

theorem runLast_eq_ok_iff {script : List Instruction} {s t : State} :
    runLast env script s = .ok () t ↔
      runScript env script s = .ok () t ∧ checkResult env true t.data = .ok () := by
  rw [runLast, Effect.bind_eq_ok]
  constructor
  · rintro ⟨_, u, hrun, htest⟩
    rw [Effect.get_bind_run] at htest
    cases hresult : checkResult env true u.data with
    | error e =>
        rw [hresult] at htest
        cases htest
    | ok x =>
        rw [hresult] at htest
        cases htest
        exact ⟨hrun, hresult⟩
  · rintro ⟨hrun, hresult⟩
    refine ⟨(), t, hrun, ?_⟩
    rw [Effect.get_bind_run, hresult]
    rfl

theorem checkResult_clean_eq_ok_iff (hclean : env.has .cleanStack = true) {item : Bytes}
    {below : Stack} :
    checkResult env true (item :: below) = .ok () ↔ below = [] ∧ Truth.holds item = true := by
  rw [checkResult, hclean]
  cases below with
  | nil => cases h : Truth.holds item <;> simp
  | cons other below => simp

theorem ofRun_runLast {script : List Instruction} {s t : State}
    (h : runScript env script s = .ok () t) :
    .ofRun (runLast env script s) = Outcome.mk (checkResult env true t.data) t.checks := by
  rw [runLast, Effect.bind_of_ok h, Effect.get_bind_run]
  cases checkResult env true t.data <;> rfl

theorem conclude_redeem {m : Machine} {a b : List Instruction}
    (hscripts : m.scripts = [a, b, m.script]) (hindex : m.scriptIndex = 2)
    (hoffset : m.offset = 0) (hne : m.script ≠ []) :
    conclude env (steps env m.script.length m) = .ofRun (runLast env m.script m.state) := by
  rw [← Nat.add_zero m.script.length]
  cases h : runScript env m.script m.state with
  | error e s =>
      obtain ⟨m', rfl, hsteps⟩ := steps_of_runScript_error 0 hoffset hne h
      rw [hsteps, runLast_of_error h]
      rfl
  | ok u s =>
      have henter : enter env (m.entering s) = .ok true (m.entering s) := by
        simp [enter, prepareRedeem, entering, skipEmpty, hscripts, hindex]
      rw [steps_of_runScript_ok 0 hoffset hne h, henter, ofRun_runLast h]
      rfl

/-- Goes on for `count` steps, and then through the scripts that were queued meanwhile. -/
def runOn (env : Env) (count : Nat) (m : Machine) : EStateM.Result Failure Machine Bool :=
  match steps env count m with
  | .ok false m => steps env m.instructionsLeft m
  | result => result

theorem runOn_of_error {count : Nat} {m m' : Machine} {e : Failure}
    (h : steps env count m = .error e m') : runOn env count m = .error e m' := by
  rw [runOn, h]

theorem runOn_of_true {count : Nat} {m m' : Machine}
    (h : steps env count m = .ok true m') : runOn env count m = .ok true m' := by
  rw [runOn, h]

/-- Queueing a redeem script takes it like the sequence of scripts does. -/
theorem queueRedeem_eq (m : Machine) :
    queueRedeem env m =
      match takeRedeem env m.unlocked m.state with
      | .error e _ => .error e
      | .ok third s =>
        .ok { m with scripts := m.scripts ++ [third], unlocked := [], state := s } := by
  rw [takeRedeem_run, queueRedeem]
  cases checkResult env false m.state.data with
  | error e => rfl
  | ok u =>
      cases m.unlocked with
      | nil => rfl
      | cons redeem below =>
          cases h : Instruction.parse redeem with
          | error e => simp [bind, Except.bind, Except.mapError, h]
          | ok third => simp [bind, Except.bind, pure, Except.pure, Except.mapError, h]

theorem enter_two_of_redeems {m : Machine} (hindex : m.scriptIndex = 2) (h : m.redeems = true) :
    enter env m =
      match takeRedeem env m.unlocked m.state with
      | .error e _ => .error e m
      | .ok third s =>
        let m := { m with scripts := m.scripts ++ [third], unlocked := [], state := s }
        .ok (m.skipEmpty.scripts.length ≤ m.skipEmpty.scriptIndex) m.skipEmpty := by
  simp only [enter, prepareRedeem, hindex, h, queueRedeem_eq]
  cases takeRedeem env m.unlocked m.state <;> rfl

theorem conclude_locking_plain {m : Machine} {first : List Instruction}
    (hscripts : m.scripts = [first, m.script]) (hindex : m.scriptIndex = 1)
    (hoffset : m.offset = 0) (hne : m.script ≠ []) (hredeems : m.redeems = false) :
    conclude env (runOn env m.script.length m) = .ofRun (runLast env m.script m.state) := by
  rw [← Nat.add_zero m.script.length]
  cases h : runScript env m.script m.state with
  | error e s =>
      obtain ⟨m', rfl, hsteps⟩ := steps_of_runScript_error 0 hoffset hne h
      rw [runOn_of_error hsteps, runLast_of_error h]
      rfl
  | ok u s =>
      have hsteps := steps_of_runScript_ok 0 hoffset hne h
      have henter : enter env (m.entering s) = .ok true (m.entering s) := by
        simp [enter, prepareRedeem, entering, skipEmpty, hscripts, hindex, hredeems]
      rw [henter] at hsteps
      rw [runOn_of_true hsteps, ofRun_runLast h]
      rfl

theorem conclude_queued {m : Machine} {a b third : List Instruction}
    (hscripts : m.scripts = [a, b, third]) (hindex : m.scriptIndex = 2) (hoffset : m.offset = 0)
    (hstate : m.state.nextScript = m.state) :
    conclude env
        (match resume env 0 (.ok (m.skipEmpty.scripts.length ≤ m.skipEmpty.scriptIndex)
          m.skipEmpty) with
        | .ok false m => steps env m.instructionsLeft m
        | result => result) =
      .ofRun (runLast env third m.state) := by
  have hget : m.scripts[m.scriptIndex]? = some third := by simp [hscripts, hindex]
  cases third with
  | nil =>
      have hskip : m.skipEmpty = { m with scriptIndex := 3 } := by
        rw [skipEmpty, if_pos hget, hindex]
      rw [ofRun_runLast (runScript_nil hstate), hskip]
      simp [hscripts, resume, conclude]
  | cons i rest =>
      have hskip : m.skipEmpty = m := by simp [skipEmpty, hget]
      have hscript : m.script = i :: rest := by simp [script, hscripts, hindex]
      have hleft : m.instructionsLeft = m.script.length := by
        simp [instructionsLeft, hscript, hscripts, hindex, hoffset]
      have hrun : conclude env (steps env m.script.length m) =
          .ofRun (runLast env m.script m.state) :=
        conclude_redeem (by rw [hscript]; exact hscripts) hindex hoffset (by simp [hscript])
      rw [hskip, ← hscript, ← hrun, ← hleft]
      simp [hscripts, hindex, resume, steps]

theorem conclude_locking_redeem {m : Machine} {first : List Instruction}
    (hscripts : m.scripts = [first, m.script]) (hindex : m.scriptIndex = 1)
    (hoffset : m.offset = 0) (hne : m.script ≠ []) (hredeems : m.redeems = true) :
    conclude env (runOn env m.script.length m) =
      .ofRun (runLocking env m.script true m.unlocked m.state) := by
  rw [← Nat.add_zero m.script.length, runLocking_true]
  cases h : runScript env m.script m.state with
  | error e s =>
      obtain ⟨m', rfl, hsteps⟩ := steps_of_runScript_error 0 hoffset hne h
      rw [runOn_of_error hsteps, Effect.bind_of_error h]
      rfl
  | ok u s =>
      have hsteps := steps_of_runScript_ok 0 hoffset hne h
      have hindex' : (m.entering s).scriptIndex = 2 := by simp [entering, hindex]
      rw [enter_two_of_redeems hindex' hredeems] at hsteps
      rw [Effect.bind_of_ok h]
      change steps env _ m = resume env 0 (match takeRedeem env m.unlocked s with
        | .error e _ => _
        | .ok third t => _) at hsteps
      cases htake : takeRedeem env m.unlocked s with
      | error e t =>
          have hstate : t = s := takeRedeem_error htake
          rw [htake] at hsteps
          rw [runOn_of_error hsteps, Effect.bind_of_error htake, hstate]
          rfl
      | ok third t =>
          have hnext : t.nextScript = t := by
            obtain ⟨below, rfl⟩ := takeRedeem_ok htake
            have hs := nextScript_of_runScript h
            rw [← hs]
            rfl
          rw [htake] at hsteps
          have hqueued : (m.entering s).scripts ++ [third] = [first, m.script, third] := by
            rw [entering, hscripts]
            rfl
          rw [Effect.bind_of_ok htake, runOn, hsteps]
          exact conclude_queued hqueued hindex' rfl hnext

theorem conclude_locking {m : Machine} {first : List Instruction}
    (hscripts : m.scripts = [first, m.script]) (hindex : m.scriptIndex = 1)
    (hoffset : m.offset = 0) (hne : m.script ≠ []) :
    conclude env (runOn env m.script.length m) =
      .ofRun (runLocking env m.script m.redeems m.unlocked m.state) := by
  cases hredeems : m.redeems with
  | false => exact conclude_locking_plain hscripts hindex hoffset hne hredeems
  | true => exact conclude_locking_redeem hscripts hindex hoffset hne hredeems

def atLocking (m : Machine) (s : State) : Machine :=
  { m.entering s with unlocked := if m.redeems then s.data else m.unlocked }

theorem enter_past_unlocking {m : Machine} {first second : List Instruction} {s : State}
    (hscripts : m.scripts = [first, second]) (hindex : m.scriptIndex = 0) :
    enter env (m.entering s) = .ok second.isEmpty (m.atLocking s).skipEmpty := by
  have hprepare : prepareRedeem env (m.entering s) = .ok (m.atLocking s) := by
    cases hredeems : m.redeems <;> simp [prepareRedeem, atLocking, entering, hindex, hredeems]
  rw [enter, hprepare]
  cases second <;> simp [skipEmpty, atLocking, entering, hscripts, hindex]

theorem skipEmpty_atLocking {m : Machine} {first second : List Instruction} {s : State}
    (hscripts : m.scripts = [first, second]) (hindex : m.scriptIndex = 0) (hne : second ≠ []) :
    (m.atLocking s).skipEmpty = m.atLocking s := by
  simp [skipEmpty, atLocking, entering, hscripts, hindex, hne]

theorem enter_locking {m : Machine} {first second : List Instruction} {s : State}
    (hscripts : m.scripts = [first, second]) (hindex : m.scriptIndex = 0) (hne : second ≠ []) :
    enter env (m.entering s) = .ok false (m.atLocking s) := by
  rw [enter_past_unlocking hscripts hindex, skipEmpty_atLocking hscripts hindex hne,
    List.isEmpty_eq_false_iff.mpr hne]

theorem steps_past_first {m : Machine} {first second : List Instruction} {s : State}
    (hscripts : m.scripts = [first, second]) (hindex : m.scriptIndex = 0) (hoffset : m.offset = 0)
    (hne : first ≠ []) (h : runScript env first m.state = .ok () s) :
    steps env first.length m = .ok second.isEmpty (m.atLocking s).skipEmpty := by
  have hscript : m.script = first := by simp [script, hscripts, hindex]
  rw [← hscript] at h hne ⊢
  rw [← Nat.add_zero m.script.length, steps_of_runScript_ok 0 hoffset hne h,
    enter_past_unlocking hscripts hindex]
  cases second <;> rfl

theorem conclude_unlocked {m : Machine} {first second : List Instruction} {s : State}
    (hscripts : m.scripts = [first, second]) (hindex : m.scriptIndex = 0) (hne : second ≠ []) :
    conclude env (match resume env second.length (enter env (m.entering s)) with
        | .ok false m => steps env m.instructionsLeft m
        | result => result) =
      .ofRun (runLocking env second m.redeems (if m.redeems then s.data else m.unlocked) s) := by
  have hscript : (m.atLocking s).script = second := by
    simp [script, atLocking, entering, hscripts, hindex]
  have hnext : (m.atLocking s).scriptIndex = 1 := by simp [atLocking, entering, hindex]
  rw [enter_locking hscripts hindex hne, ← hscript]
  exact conclude_locking (by rw [hscript]; exact hscripts) hnext rfl (by rw [hscript]; exact hne)

theorem runLocking_unlocked (locking : List Instruction) (redeems : Bool) (a b : Stack) :
    runLocking env locking redeems (if redeems then a else b) =
      runLocking env locking redeems a := by
  cases redeems <;> rfl

theorem isEmpty_iff {script : Script} {is : List Instruction} (h : script.instructions = .ok is) :
    script.isEmpty = true ↔ is = [] := by
  rw [Script.isEmpty, List.isEmpty_iff]
  exact (Instruction.parse_eq_nil_iff h).symm

theorem isEmpty_eq {script : Script} {is : List Instruction} (h : script.instructions = .ok is) :
    script.isEmpty = is.isEmpty := by
  rw [Bool.eq_iff_iff, isEmpty_iff h, List.isEmpty_iff]

theorem callsForRedeem_eq_false {locking : Script} (h : locking.instructions = .ok []) :
    callsForRedeem env locking = false := by
  have hbytes : locking.bytes = [] := (Instruction.parse_eq_nil_iff h).mp rfl
  simp [callsForRedeem, Script.isPayToScriptHash, hbytes]

theorem run_eq_runOn (m : Machine) : run env m = runOn env m.instructionsLeft m := rfl

theorem conclude_run_nil {m : Machine} {second : List Instruction} {redeems : Bool}
    (hscripts : m.scripts = [[], second]) (hindex : m.scriptIndex = 1) (hoffset : m.offset = 0)
    (hredeems : m.redeems = redeems) (hunlocked : m.unlocked = []) (hstate : m.state = {})
    (hne : second ≠ []) :
    conclude env (run env m) = .ofRun (runSpend env [] second redeems {}) := by
  have hscript : m.script = second := by simp [script, hscripts, hindex]
  have hleft : m.instructionsLeft = m.script.length := by
    simp [instructionsLeft, hscript, hscripts, hindex, hoffset]
  rw [run_eq_runOn, hleft, conclude_locking (by rw [hscript]; exact hscripts) hindex hoffset
    (by rw [hscript]; exact hne), runSpend, Effect.bind_of_ok (runScript_nil rfl),
    Effect.get_bind_run, hscript, hredeems, hunlocked, hstate]

theorem conclude_run_cons {m : Machine} {first second : List Instruction} {redeems : Bool}
    (hscripts : m.scripts = [first, second]) (hindex : m.scriptIndex = 0) (hoffset : m.offset = 0)
    (hredeems : m.redeems = redeems) (hstate : m.state = {}) (hne : first ≠ [])
    (hplain : second = [] → redeems = false) :
    conclude env (run env m) = .ofRun (runSpend env first second redeems {}) := by
  have hscript : m.script = first := by simp [script, hscripts, hindex]
  have hleft : m.instructionsLeft = m.script.length + second.length := by
    simp [instructionsLeft, hscript, hscripts, hindex, hoffset]
  have hne' : m.script ≠ [] := by rwa [hscript]
  rw [run_eq_runOn, hleft, runSpend, ← hstate, ← hscript]
  cases h : runScript env m.script m.state with
  | error e s =>
      obtain ⟨m', rfl, hsteps⟩ := steps_of_runScript_error second.length hoffset hne' h
      rw [runOn_of_error hsteps, Effect.bind_of_error h]
      rfl
  | ok u s =>
      rw [Effect.bind_of_ok h, Effect.get_bind_run, runOn,
        steps_of_runScript_ok second.length hoffset hne' h]
      by_cases hsecond : second = []
      · subst hsecond
        have hfalse := hplain rfl
        have hstate : (m.atLocking s).skipEmpty.state = s := state_skipEmpty _
        rw [enter_past_unlocking hscripts hindex, hfalse, runLocking_false,
          ofRun_runLast (runScript_nil (nextScript_of_runScript h))]
        simp only [List.isEmpty_nil, resume, conclude, hstate]
      · rw [conclude_unlocked hscripts hindex hsecond, hredeems, runLocking_unlocked]

/-- A started machine does what the sequence of its scripts does. -/
theorem evaluate_of_startable {unlocking locking : Script} {first second : List Instruction}
    (h : Startable env unlocking locking first second) :
    evaluate env unlocking locking =
      .ofRun (runSpend env first second (callsForRedeem env locking) {}) := by
  have hunlocking := isEmpty_iff h.unlockingParses
  have hlocking := isEmpty_iff h.lockingParses
  have hnonempty := h.nonempty
  rw [evaluate_eq_conclude (start_eq_ok_iff.mpr ⟨first, second, h, rfl⟩)]
  by_cases hfirst : first = []
  · have hsecond : second ≠ [] := fun hs => hnonempty ⟨hunlocking.mpr hfirst, hlocking.mpr hs⟩
    have hindex : (initial env unlocking locking first second).scriptIndex = 1 :=
      if_pos (hunlocking.mpr hfirst)
    rw [hfirst] at hindex ⊢
    exact conclude_run_nil rfl hindex rfl rfl rfl rfl hsecond
  · have hindex : (initial env unlocking locking first second).scriptIndex = 0 :=
      if_neg (mt hunlocking.mp hfirst)
    refine conclude_run_cons rfl hindex rfl rfl rfl hfirst ?_
    intro hsecond
    exact callsForRedeem_eq_false (hsecond ▸ h.lockingParses)

theorem result_ofRun_eq_ok_iff {r : EStateM.Result Failure State Unit} :
    (Outcome.ofRun r).result = .ok () ↔ ∃ t, r = .ok () t := by
  cases r with
  | ok u t => exact ⟨fun _ => ⟨t, rfl⟩, fun _ => rfl⟩
  | error e t =>
      constructor
      · intro h
        cases h
      · rintro ⟨t, h⟩
        cases h

theorem evaluate_of_start_error {unlocking locking : Script} {e : Failure}
    (h : start env unlocking locking = .error e) :
    evaluate env unlocking locking = ⟨.error e, []⟩ := by
  rw [evaluate, h]

/-- A spend is good exactly if it starts and its scripts run to their end. -/
theorem result_eq_ok_iff_runSpend {unlocking locking : Script} :
    (evaluate env unlocking locking).result = .ok () ↔
      ∃ first second t, Startable env unlocking locking first second ∧
        runSpend env first second (callsForRedeem env locking) {} = .ok () t := by
  constructor
  · intro hresult
    cases hstart : start env unlocking locking with
    | error e =>
        rw [evaluate_of_start_error hstart] at hresult
        cases hresult
    | ok m =>
        obtain ⟨first, second, hstartable, -⟩ := start_eq_ok_iff.mp hstart
        rw [evaluate_of_startable hstartable, result_ofRun_eq_ok_iff] at hresult
        obtain ⟨t, hrun⟩ := hresult
        exact ⟨first, second, t, hstartable, hrun⟩
  · rintro ⟨first, second, t, hstartable, hrun⟩
    rw [evaluate_of_startable hstartable, result_ofRun_eq_ok_iff]
    exact ⟨t, hrun⟩

theorem result_eq_ok_iff {unlocking locking : Script} {second : List Instruction}
    (hparse : locking.instructions = .ok second) (hplain : callsForRedeem env locking = false) :
    (evaluate env unlocking locking).result = .ok () ↔
      ∃ first s t, Startable env unlocking locking first second ∧
        runScript env first {} = .ok () s ∧ runLast env second s = .ok () t := by
  rw [result_eq_ok_iff_runSpend, hplain]
  constructor
  · rintro ⟨first, second', t, h, hrun⟩
    have hsame := h.lockingParses
    rw [hparse] at hsame
    cases hsame
    obtain ⟨_, s, hfirst, hlast⟩ := Effect.bind_eq_ok.mp hrun
    exact ⟨first, s, t, h, hfirst, hlast⟩
  · rintro ⟨first, s, t, h, hfirst, hlast⟩
    exact ⟨first, second, t, h, Effect.bind_eq_ok.mpr ⟨(), s, hfirst, hlast⟩⟩

end Machine

end UtxoSpend
