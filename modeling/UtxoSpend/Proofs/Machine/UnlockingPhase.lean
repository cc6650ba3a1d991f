import Mathlib
import UtxoSpend.Proofs.Machine.Building
import UtxoSpend.Proofs.Machine.PayToScriptHash
import UtxoSpend.Proofs.Machine.Run

/-!
# What the unlocking script leaves behind

Between the unlocking script and the rest of a spend everything is reset but the data stack and the
list of signature checks, and no instruction looks at that list.  Main statement: two unlocking
scripts that leave the same stack get the same verdict from the same locking script, after the same
further checks.
-/

namespace UtxoSpend

namespace Effect

variable {ε σ α β : Type} {f : σ → σ}

def mapState (f : σ → σ) : EStateM.Result ε σ α → EStateM.Result ε σ α
  | .ok a s => .ok a (f s)
  | .error e s => .error e (f s)

/-- It does not matter whether the state is changed before the operation or after it. -/
def Commutes (f : σ → σ) (x : EStateM ε σ α) : Prop := ∀ s, x (f s) = mapState f (x s)

theorem Commutes.pure (a : α) : Commutes f (Pure.pure a : EStateM ε σ α) := fun _ => rfl

theorem Commutes.throw (e : ε) : Commutes f (throw e : EStateM ε σ α) := fun _ => rfl

theorem Commutes.modify {g : σ → σ} (h : ∀ s, g (f s) = f (g s)) :
    Commutes f (modify g : EStateM ε σ Unit) := by
  intro s
  rw [modify_run, modify_run, h]
  rfl

theorem Commutes.bind {x : EStateM ε σ α} {g : α → EStateM ε σ β} (h : Commutes f x)
    (h' : ∀ a, Commutes f (g a)) : Commutes f (x >>= g) := by
  intro s
  have hx := h s
  cases hrun : x s with
  | error e t =>
      rw [hrun] at hx
      rw [bind_of_error hrun, bind_of_error hx]
      rfl
  | ok a t =>
      rw [hrun] at hx
      rw [bind_of_ok hrun, bind_of_ok hx]
      exact h' a t

theorem Commutes.get_bind {g : σ → EStateM ε σ β} (hsame : ∀ s, g (f s) = g s)
    (h : ∀ s, Commutes f (g s)) : Commutes f (get >>= g) := by
  intro s
  rw [get_bind_run, get_bind_run, hsame]
  exact h s s

end Effect

open Effect

/-! ## Nothing looks at the earlier checks -/

namespace Exec

def Forgetful {α : Type} (x : Exec α) : Prop := ∀ earlier, Commutes (State.after earlier) x

namespace Forgetful

variable {α β : Type} {x : Exec α}

theorem pure (a : α) : Forgetful (Pure.pure a) := fun _ => .pure a

theorem throw (e : Failure) : Forgetful (throw e : Exec α) := fun _ => .throw e

theorem bind {g : α → Exec β} (h : Forgetful x) (h' : ∀ a, Forgetful (g a)) :
    Forgetful (x >>= g) := fun earlier => (h earlier).bind fun a => h' a earlier

theorem get_bind {g : State → Exec β} (hsame : ∀ earlier s, g (s.after earlier) = g s)
    (h : ∀ s, Forgetful (g s)) : Forgetful (get >>= g) :=
  fun earlier => .get_bind (hsame earlier) fun s => h s earlier

theorem modify {g : State → State} (h : ∀ earlier s, g (s.after earlier) = (g s).after earlier) :
    Forgetful (modify g) := fun earlier => .modify (h earlier)

end Forgetful

theorem onData_forgetful {α : Type} (op : StackM α) : Forgetful (onData op) := by
  intro earlier s
  rw [onData_run, onData_run, State.after]
  cases op s.data <;> rfl

theorem onAlt_forgetful {α : Type} (op : StackM α) : Forgetful (onAlt op) := by
  intro earlier s
  rw [onAlt, onAlt, State.after]
  cases op s.alt <;> rfl

theorem failIf_forgetful (condition : Bool) (failure : Failure) :
    Forgetful (failIf condition failure) := by
  cases condition
  · exact .pure ()
  · exact .throw failure

theorem test_forgetful (verdict : Except Failure Unit) : Forgetful (test verdict) := by
  cases verdict with
  | error e => exact .throw e
  | ok u => exact .pure ()

section Pure

variable {env : Env} (hpure : ∀ tx ∈ env.context, tx.IsPure)
include hpure

/-- Of all operations only a check could look at the earlier checks, and its verdict does not. -/
theorem Built.forgetful {Q : Bytes → Prop} {parts : Set Part} {α : Type} {x : Exec α}
    (h : Built env Q parts x) : Forgetful x := by
  induction h with
  | pure a => exact .pure a
  | throw h => exact .throw _
  | bind _ _ ih ih' => exact .bind ih ih'
  | look hblind _ ih => exact .get_bind hblind ih
  | change h => exact .modify fun earlier s => by cases h <;> rfl
  | data h => exact onData_forgetful _
  | toAlt => exact (onData_forgetful _).bind fun _ => onAlt_forgetful _
  | fromAlt => exact (onAlt_forgetful _).bind fun _ => onData_forgetful _
  | judge _ htx check =>
      rename_i tx
      have hverdict : tx.IsPure := hpure tx htx
      intro earlier s
      rw [Exec.judge, Exec.judge, State.after, hverdict (earlier ++ s.checks), hverdict s.checks,
        mapState, State.after, List.append_assoc]

/-! ### Scripts -/

theorem executeBounded_forgetful (script : List Instruction) (offset : Nat) (i : Instruction) :
    Forgetful (executeBounded env script offset i) := by
  have hexecute := Built.execute env script offset i
  refine (hexecute.forgetful hpure).bind fun _ => .get_bind (fun _ _ => rfl) fun s => ?_
  exact failIf_forgetful _ _

theorem runFrom_forgetful (script : List Instruction) (offset : Nat) (rest : List Instruction) :
    Forgetful (runFrom env script offset rest) := by
  induction rest generalizing offset with
  | nil => exact .pure ()
  | cons i rest ih =>
      exact (executeBounded_forgetful hpure script offset i).bind fun _ => ih (offset + 1)

theorem runScript_forgetful (script : List Instruction) : Forgetful (runScript env script) := by
  refine (runFrom_forgetful hpure script 0 script).bind fun _ => .get_bind (fun _ _ => rfl) ?_
  exact fun s => (failIf_forgetful _ _).bind fun _ => .modify fun _ _ => rfl

theorem runLast_forgetful (script : List Instruction) : Forgetful (runLast env script) :=
  (runScript_forgetful hpure script).bind fun _ =>
    .get_bind (fun _ _ => rfl) fun _ => test_forgetful _

omit hpure in
theorem takeRedeem_forgetful (unlocked : Stack) : Forgetful (takeRedeem env unlocked) := by
  refine .get_bind (fun _ _ => rfl) fun s => (test_forgetful _).bind fun _ => ?_
  cases unlocked with
  | nil => exact .throw _
  | cons redeem below =>
      dsimp only
      cases Instruction.parse redeem with
      | error e => exact .throw _
      | ok third => exact Forgetful.bind (.modify fun _ _ => rfl) fun _ => .pure third

theorem runLocking_forgetful (locking : List Instruction) (redeems : Bool) (unlocked : Stack) :
    Forgetful (runLocking env locking redeems unlocked) := by
  cases redeems with
  | false => exact runLast_forgetful hpure locking
  | true =>
      refine (runScript_forgetful hpure locking).bind fun _ => ?_
      exact (takeRedeem_forgetful unlocked).bind fun third => runLast_forgetful hpure third

end Pure

end Exec

/-! ## The end of the unlocking script -/

namespace Machine

open Exec

variable {env : Env} {unlocking locking : Script} {m : Machine}

def Unlocked (env : Env) (unlocking locking : Script) (m : Machine) : Prop :=
  ∃ past, Run env unlocking locking past m ∧ (∀ p ∈ past, p.scriptIndex = 0) ∧ 0 < m.scriptIndex

structure Unlocking (env : Env) (unlocking locking : Script) (first second : List Instruction)
    (m : Machine) : Prop where
  startable : Startable env unlocking locking first second
  index : m.scriptIndex = 0
  scripts : m.scripts = [first, second]
  ran : runFrom env first 0 (first.take m.offset) {} = .ok () m.state

theorem Unlocking.script {first second : List Instruction}
    (h : Unlocking env unlocking locking first second m) : m.script = first := by
  rw [Machine.script, h.scripts, h.index]
  rfl

theorem runFrom_snoc {script is : List Instruction} {offset : Nat} {i : Instruction}
    {s t u : State} (h : runFrom env script offset is s = .ok () t)
    (hi : executeBounded env script (offset + is.length) i t = .ok () u) :
    runFrom env script offset (is ++ [i]) s = .ok () u := by
  induction is generalizing offset s with
  | nil =>
      cases h
      exact bind_eq_ok.mpr ⟨(), u, hi, rfl⟩
  | cons j is ih =>
      obtain ⟨_, v, hj, hrest⟩ := bind_eq_ok.mp h
      rw [List.cons_append, runFrom, Effect.bind_of_ok hj]
      refine ih hrest ?_
      rwa [Nat.add_assoc, Nat.add_comm 1, ← List.length_cons (a := j)]

theorem Unlocking.ran_succ {first second : List Instruction} {i : Instruction} {s : State}
    (h : Unlocking env unlocking locking first second m) (hnext : m.next? = some i)
    (hexec : executeBounded env m.script m.offset i m.state = .ok () s) :
    runFrom env first 0 (first.take (m.offset + 1)) {} = .ok () s := by
  rw [next?, h.script] at hnext
  rw [h.script] at hexec
  obtain ⟨hlt, hget⟩ := List.getElem?_eq_some_iff.mp hnext
  have hlength : (first.take m.offset).length = m.offset := by
    rw [List.length_take, Nat.min_eq_left (Nat.le_of_lt hlt)]
  rw [List.take_succ_eq_append_getElem hlt, hget]
  refine runFrom_snoc h.ran ?_
  rwa [hlength, Nat.zero_add]

theorem Run.stands_in_unlocking {past : List Machine} (h : Run env unlocking locking past m)
    (hindex : m.scriptIndex = 0) :
    ∃ first second, Unlocking env unlocking locking first second m := by
  induction h with
  | start h =>
      obtain ⟨first, second, hstart, rfl⟩ := start_eq_ok_iff.mp h
      exact ⟨first, second, hstart, hindex, rfl, rfl⟩
  | step run h ih =>
      rename_i past p m done
      obtain ⟨i, s, hnext, hexec, ⟨-, -, rfl⟩ | ⟨-, hend⟩⟩ := of_step_eq_ok h
      · obtain ⟨first, second, hp⟩ := ih hindex
        exact ⟨first, second, hp.startable, hindex, hp.scripts, hp.ran_succ hnext hexec⟩
      · have hlt := scriptIndex_lt_of_endScript hend
        omega

theorem state_of_endUnlocking {m' : Machine} {done : Bool} (hindex : m.scriptIndex = 0)
    (h : endScript env m = .ok done m') :
    m.state.branches = [] ∧ m'.state = m.state.nextScript := by
  obtain ⟨next, hprepare, rfl, hclosed, -⟩ := endScript_eq_ok h
  refine ⟨hclosed, ?_⟩
  rw [state_skipEmpty]
  have hentered : m.advance.scriptIndex = 1 := by rw [advance, hindex]
  obtain rfl | ⟨-, rfl⟩ | ⟨⟨-, hredeem⟩, -⟩ := prepareRedeem_eq_ok hprepare
  · rfl
  · rfl
  · omega

theorem runScript_of_unlocked (h : Unlocked env unlocking locking m) :
    ∃ first second, Startable env unlocking locking first second ∧
      runScript env first {} = .ok () m.state := by
  obtain ⟨past, hrun, hpast, hindex⟩ := h
  cases hrun with
  | start h =>
      obtain ⟨first, second, hstart, rfl⟩ := start_eq_ok_iff.mp h
      have hempty : unlocking.isEmpty = true := by
        by_contra hfirst
        rw [initial, if_neg hfirst] at hindex
        exact Nat.lt_irrefl 0 hindex
      have hfirst := (isEmpty_iff hstart.unlockingParses).mp hempty
      exact ⟨first, second, hstart, hfirst ▸ runScript_nil rfl⟩
  | step run h =>
      rename_i past p done
      have hp : p.scriptIndex = 0 := hpast p List.mem_cons_self
      obtain ⟨first, second, hunlocking⟩ := run.stands_in_unlocking hp
      obtain ⟨i, s, hnext, hexec, ⟨-, -, rfl⟩ | ⟨hlast, hend⟩⟩ := of_step_eq_ok h
      · exact absurd hp (Nat.ne_of_gt hindex)
      · have hran := hunlocking.ran_succ hnext hexec
        rw [List.take_of_length_le (hunlocking.script ▸ hlast)] at hran
        obtain ⟨hclosed, hstate⟩ := state_of_endUnlocking (m := p.passed s) hp hend
        exact ⟨first, second, hunlocking.startable,
          runScript_eq_ok_iff.mpr ⟨s, hran, hclosed, hstate⟩⟩

theorem Run.unlocked_of_step {past : List Machine} {m' : Machine} {done : Bool}
    (run : Run env unlocking locking past m) (hindex : m.scriptIndex = 0)
    (h : Machine.step env m = .ok done m') (hlater : 0 < m'.scriptIndex) :
    Unlocked env unlocking locking m' := by
  refine ⟨m :: past, run.step h, fun p hp => ?_, hlater⟩
  have hle := run.scriptIndex_le hp
  omega

theorem Run.exists_unlocked {past : List Machine} (h : Run env unlocking locking past m)
    (hindex : 0 < m.scriptIndex) : ∃ m', Unlocked env unlocking locking m' := by
  induction h with
  | start h => exact ⟨_, [], .start h, by simp, hindex⟩
  | step run h ih =>
      rename_i past p m done
      rcases Nat.eq_zero_or_pos p.scriptIndex with hp | hp
      · exact ⟨m, run.unlocked_of_step hp h hindex⟩
      · exact ih hp

theorem exists_unlocked_of_runScript {first second : List Instruction} {s : State}
    (h : Startable env unlocking locking first second)
    (hrun : runScript env first {} = .ok () s) : ∃ m, Unlocked env unlocking locking m := by
  obtain ⟨m, hm⟩ : ∃ m, m = initial env unlocking locking first second := ⟨_, rfl⟩
  have hstart : start env unlocking locking = .ok m := start_eq_ok_iff.mpr ⟨_, _, h, hm⟩
  have hunlocking := isEmpty_iff h.unlockingParses
  rcases Nat.eq_zero_or_pos m.scriptIndex with hindex | hindex
  · have hne : first ≠ [] := by
      intro hfirst
      rw [hm, initial, if_pos (hunlocking.mpr hfirst)] at hindex
      cases hindex
    have hscripts : m.scripts = [first, second] := by rw [hm]; rfl
    have hoffset : m.offset = 0 := by rw [hm]; rfl
    have hstate : m.state = {} := by rw [hm]; rfl
    have hsteps := steps_past_first hscripts hindex hoffset hne (hstate ▸ hrun)
    have hlater : 0 < (m.atLocking s).skipEmpty.scriptIndex := by
      obtain heq | heq := skipEmpty_eq (m.atLocking s) <;> rw [heq] <;> exact Nat.succ_pos _
    obtain ⟨past, hpast⟩ := (Run.start hstart).of_steps hsteps
    exact hpast.exists_unlocked hlater
  · exact (Run.start hstart).exists_unlocked hindex

/-- The machine leaves the unlocking script exactly if this runs to its end, and with the state that
it leaves. -/
theorem exists_unlocked_iff {s : State} :
    (∃ m, Unlocked env unlocking locking m ∧ m.state = s) ↔
      ∃ first second, Startable env unlocking locking first second ∧
        runScript env first {} = .ok () s := by
  constructor
  · rintro ⟨m, h, rfl⟩
    exact runScript_of_unlocked h
  · rintro ⟨first, second, h, hrun⟩
    obtain ⟨m, hm⟩ := exists_unlocked_of_runScript h hrun
    obtain ⟨first', second', h', hrun'⟩ := runScript_of_unlocked hm
    have hparses := h'.unlockingParses
    rw [h.unlockingParses] at hparses
    cases hparses
    rw [hrun] at hrun'
    cases hrun'
    exact ⟨m, hm, rfl⟩

/-! ## Two unlocking scripts -/

theorem ofRun_after (earlier : List SignatureCheck) (r : EStateM.Result Failure State Unit) :
    Outcome.ofRun (mapState (State.after earlier) r) =
      ⟨(Outcome.ofRun r).result, earlier ++ (Outcome.ofRun r).checks⟩ := by
  cases r <;> rfl

/-- What follows the unlocking script starts from its stack alone. -/
theorem evaluate_of_unlocked (hpure : ∀ tx ∈ env.context, tx.IsPure)
    (h : Unlocked env unlocking locking m) {second : List Instruction}
    (hparse : locking.instructions = .ok second) :
    let rest := Outcome.ofRun
      (runLocking env second (callsForRedeem env locking) m.state.data { data := m.state.data })
    evaluate env unlocking locking = ⟨rest.result, m.state.checks ++ rest.checks⟩ := by
  obtain ⟨first, second', hstart, hrun⟩ := runScript_of_unlocked h
  have hsame : second' = second := by
    have hparses := hstart.lockingParses
    rw [hparse] at hparses
    cases hparses
    rfl
  subst hsame
  have hstate : m.state = State.after m.state.checks { data := m.state.data } := by
    rw [State.after, List.append_nil]
    exact (nextScript_of_runScript hrun).symm
  have hforgetful := runLocking_forgetful hpure second' (callsForRedeem env locking) m.state.data
    m.state.checks { data := m.state.data }
  rw [← hstate] at hforgetful
  rw [evaluate_of_startable hstart, runSpend, Effect.bind_of_ok hrun, get_bind_run, hforgetful,
    ofRun_after]

/-- Unlocking scripts that leave the same stack are judged alike, and the checks made after them are
the same. -/
theorem evaluate_eq_of_unlocked_data (hpure : ∀ tx ∈ env.context, tx.IsPure)
    {unlocking' : Script} {m' : Machine} (h : Unlocked env unlocking locking m)
    (h' : Unlocked env unlocking' locking m') (hdata : m.state.data = m'.state.data) :
    (evaluate env unlocking locking).result = (evaluate env unlocking' locking).result ∧
      ∃ later, (evaluate env unlocking locking).checks = m.state.checks ++ later ∧
        (evaluate env unlocking' locking).checks = m'.state.checks ++ later := by
  obtain ⟨first, second, hstart, -⟩ := runScript_of_unlocked h
  rw [evaluate_of_unlocked hpure h hstart.lockingParses,
    evaluate_of_unlocked hpure h' hstart.lockingParses, hdata]
  exact ⟨rfl, _, rfl, rfl⟩

def checkedOne : Script := ⟨[2, 0x31, 0x01, 2, 0x02, 0x04, 0xac]⟩

def checkAfterDrop : Script := ⟨[0x75, 2, 0x30, 0x01, 2, 0x02, 0x03, 0xac]⟩

theorem evaluate_eq_of_unlocked_data_checkedOne :
    (∀ tx ∈ trustingEnv.context, tx.IsPure) ∧
    ∃ m m', Unlocked trustingEnv ⟨[0x51]⟩ checkAfterDrop m ∧
      Unlocked trustingEnv checkedOne checkAfterDrop m' ∧
      m.state.data = m'.state.data ∧ m.state.checks ≠ m'.state.checks ∧
      (evaluate trustingEnv ⟨[0x51]⟩ checkAfterDrop).result =
        (evaluate trustingEnv checkedOne checkAfterDrop).result ∧
      ∃ later, (evaluate trustingEnv ⟨[0x51]⟩ checkAfterDrop).checks = m.state.checks ++ later ∧
        (evaluate trustingEnv checkedOne checkAfterDrop).checks = m'.state.checks ++ later := by
  have hpure : ∀ tx ∈ trustingEnv.context, tx.IsPure := by
    rintro tx htx earlier check
    cases htx
    rfl
  have hlocking : checkAfterDrop.instructions =
      .ok [⟨0x75, []⟩, ⟨2, [0x30, 0x01]⟩, ⟨2, [0x02, 0x03]⟩, ⟨0xac, []⟩] :=
    Instruction.parse_eq_ok_iff.mpr ⟨by decide, rfl⟩
  have hnumber : Startable trustingEnv ⟨[0x51]⟩ checkAfterDrop [⟨0x51, []⟩] _ :=
    ⟨by decide, by decide, by decide, by decide, Instruction.parse_eq_ok_iff.mpr ⟨by decide, rfl⟩,
      hlocking, by decide, by decide⟩
  have hchecked : Startable trustingEnv checkedOne checkAfterDrop
      [⟨2, [0x31, 0x01]⟩, ⟨2, [0x02, 0x04]⟩, ⟨0xac, []⟩] _ :=
    ⟨by decide, by decide, by decide, by decide, Instruction.parse_eq_ok_iff.mpr ⟨by decide, rfl⟩,
      hlocking, by decide, by decide⟩
  have hrun : runScript trustingEnv [⟨0x51, []⟩] {} = .ok () { data := [[1]] } := rfl
  have hrun' : runScript trustingEnv [⟨2, [0x31, 0x01]⟩, ⟨2, [0x02, 0x04]⟩, ⟨0xac, []⟩] {} =
      .ok () {
        data := [[1]]
        checks := [⟨[0x31, 0x01], [0x02, 0x04], ⟨[2, 0x02, 0x04, 0xac]⟩, 0, 1⟩] } := rfl
  obtain ⟨m, h, hm⟩ := exists_unlocked_iff.mpr ⟨_, _, hnumber, hrun⟩
  obtain ⟨m', h', hm'⟩ := exists_unlocked_iff.mpr ⟨_, _, hchecked, hrun'⟩
  have hdata : m.state.data = m'.state.data := by rw [hm, hm']
  have hchecks : m.state.checks ≠ m'.state.checks := by
    rw [hm, hm']
    decide
  exact ⟨hpure, m, m', h, h', hdata, hchecks, evaluate_eq_of_unlocked_data hpure h h' hdata⟩

end Machine

end UtxoSpend
