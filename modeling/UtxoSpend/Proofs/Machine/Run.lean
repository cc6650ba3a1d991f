import Mathlib
import UtxoSpend.Proofs.Machine.Frame
import UtxoSpend.Proofs.Machine.Reach

/-!
# Runs and their history

A run is a machine together with all the machines it went through.  What a step can do is said
once, script by script, so that a fact about all runs needs no more than its step.  Main statement:
the script that runs is the unlocking script, the locking script, or the top of the stack with
which the locking script was entered.
-/

namespace UtxoSpend.Machine

open Exec Effect

variable {env : Env} {unlocking locking : Script}

/-- Where the machine stands after its start and some steps, and where it stood before each of them,
the latest first. -/
inductive Run (env : Env) (unlocking locking : Script) : List Machine → Machine → Prop
  | start {m : Machine} (h : start env unlocking locking = .ok m) : Run env unlocking locking [] m
  | step {past : List Machine} {m m' : Machine} {done : Bool}
      (run : Run env unlocking locking past m) (h : step env m = .ok done m') :
      Run env unlocking locking (m :: past) m'

theorem Run.of_steps {past : List Machine} {m m' : Machine} {done : Bool} {count : Nat}
    (h : Run env unlocking locking past m) (hsteps : steps env count m = .ok done m') :
    ∃ past', Run env unlocking locking past' m' := by
  induction count generalizing past m with
  | zero =>
      cases hsteps
      exact ⟨past, h⟩
  | succ count ih =>
      rw [steps_succ] at hsteps
      cases hstep : Machine.step env m with
      | error e next =>
          rw [hstep] at hsteps
          cases hsteps
      | ok finished next =>
          rw [hstep] at hsteps
          cases finished with
          | true =>
              cases hsteps
              exact ⟨_, h.step hstep⟩
          | false => exact ih (h.step hstep) hsteps

/-! ## The places of a run -/

theorem Run.before {past : List Machine} {m p : Machine} (h : Run env unlocking locking past m)
    (hp : p ∈ past) : Before p m := by
  induction h with
  | start h => cases hp
  | step run h ih =>
      have hlast := before_of_step h
      rcases List.mem_cons.mp hp with rfl | hp
      · exact hlast
      · exact (ih hp).trans hlast

theorem Run.scriptIndex_le {past : List Machine} {m p : Machine}
    (h : Run env unlocking locking past m) (hp : p ∈ m :: past) :
    p.scriptIndex ≤ m.scriptIndex := by
  rcases List.mem_cons.mp hp with rfl | hp
  · exact Nat.le_refl _
  · have hbefore := h.before hp
    unfold Before at hbefore
    omega

/-! ## The scripts of a run -/

inductive Running (unlocking locking : Script) (past : List Machine) (m : Machine) : Bytes → Prop
  | unlocking (hindex : m.scriptIndex = 0) : Running unlocking locking past m unlocking.bytes
  | locking (hindex : m.scriptIndex = 1) : Running unlocking locking past m locking.bytes
  | redeem {entered : Machine} {redeem : Bytes} {below : Stack} (hindex : m.scriptIndex = 2)
      (hmem : entered ∈ past) (hentered : entered.scriptIndex = 1 ∧ entered.offset = 0)
      (hdata : entered.state.data = redeem :: below) : Running unlocking locking past m redeem

inductive Loaded (first second : List Instruction) (past : List Machine) (m : Machine) : Prop
  | unlocking (hindex : m.scriptIndex = 0) (hscripts : m.scripts = [first, second])
      (hunlocked : m.unlocked = [])
  | locking (hindex : m.scriptIndex = 1) (hscripts : m.scripts = [first, second])
      (hunlocked : m.unlocked = [] ∨ ∃ entered ∈ m :: past,
        (entered.scriptIndex = 1 ∧ entered.offset = 0) ∧ entered.state.data = m.unlocked)
  | redeem (third : List Instruction) {entered : Machine} {redeem : Bytes} {below : Stack}
      (hindex : m.scriptIndex = 2) (hscripts : m.scripts = [first, second, third])
      (hparse : Instruction.parse redeem = .ok third) (hmem : entered ∈ past)
      (hentered : entered.scriptIndex = 1 ∧ entered.offset = 0)
      (hdata : entered.state.data = redeem :: below)
  | finished (hindex : m.scripts.length ≤ m.scriptIndex)

variable {first second : List Instruction}

theorem lt_length_of_next? {m : Machine} {i : Instruction} (h : m.next? = some i) :
    m.scriptIndex < m.scripts.length := by
  by_contra hge
  rw [next?, script, List.getD_eq_getElem?_getD, List.getElem?_eq_none (Nat.le_of_not_lt hge)] at h
  cases h

theorem Loaded.passed {past : List Machine} {m : Machine} (h : Loaded first second past m)
    (s : State) : Loaded first second (m :: past) (m.passed s) := by
  cases h with
  | unlocking hindex hscripts hunlocked => exact .unlocking hindex hscripts hunlocked
  | locking hindex hscripts hunlocked =>
      refine .locking hindex hscripts (hunlocked.imp_right ?_)
      rintro ⟨entered, hmem, hplace⟩
      exact ⟨entered, List.mem_cons_of_mem _ hmem, hplace⟩
  | redeem third hindex hscripts hparse hmem hentered hdata =>
      exact .redeem third hindex hscripts hparse (List.mem_cons_of_mem _ hmem) hentered hdata
  | finished hindex => exact .finished hindex

theorem Loaded.skipEmpty {past : List Machine} {m : Machine} (h : Loaded first second past m)
    (hlast : m.scripts.length ≤ m.scriptIndex + 1) : Loaded first second past m.skipEmpty := by
  obtain heq | heq := skipEmpty_eq m
  · rw [heq]
    exact h
  · rw [heq]
    exact .finished hlast

theorem Loaded.endScript {past : List Machine} {m m' : Machine} {s : State} {done : Bool}
    (h : Loaded first second past m) (hlt : m.scriptIndex < m.scripts.length)
    (hend : Machine.endScript env (m.passed s) = .ok done m') :
    Loaded first second (m :: past) m' := by
  obtain ⟨next, hprepare, rfl, -⟩ := endScript_eq_ok hend
  have hplace : (m.passed s).advance.scriptIndex = m.scriptIndex + 1 := rfl
  cases h with
  | unlocking hindex hscripts hunlocked =>
      have hlocking : m.scriptIndex + 1 = 1 := by rw [hindex]
      have hlast : m.scripts.length ≤ m.scriptIndex + 1 + 1 := by rw [hscripts, hindex]; rfl
      obtain rfl | ⟨-, rfl⟩ | ⟨hredeem, -⟩ := prepareRedeem_eq_ok hprepare
      · exact skipEmpty (.locking hlocking hscripts (.inl hunlocked)) hlast
      · -- The stack is kept just when the machine is at the start of the locking script.
        refine skipEmpty (.locking hlocking hscripts (.inr ?_)) hlast
        exact ⟨_, List.mem_cons_self, ⟨hlocking, rfl⟩, rfl⟩
      · omega
  | locking hindex hscripts hunlocked =>
      obtain rfl | ⟨hlocking, -⟩ | ⟨-, hqueue⟩ := prepareRedeem_eq_ok hprepare
      · have hdone : m.scripts.length ≤ m.scriptIndex + 1 := by rw [hscripts, hindex]; rfl
        exact skipEmpty (.finished hdone) (Nat.le_succ_of_le hdone)
      · omega
      · obtain ⟨redeem, below, third, hkept, hparse, rfl⟩ := queueRedeem_eq_ok hqueue
        have hkept' : m.unlocked = redeem :: below := hkept
        obtain hnone | ⟨entered, hmem, hentered, hdata⟩ := hunlocked
        · rw [hnone] at hkept'
          cases hkept'
        · have hlast : (m.scripts ++ [third]).length ≤ m.scriptIndex + 1 + 1 := by
            rw [hscripts, hindex]
            rfl
          have hqueued : m.scripts ++ [third] = [first, second, third] := by rw [hscripts]; rfl
          have hredeem : m.scriptIndex + 1 = 2 := by rw [hindex]
          have htop := hdata.trans hkept'
          exact skipEmpty (.redeem third hredeem hqueued hparse hmem hentered htop) hlast
  | redeem third hindex hscripts hparse hmem hentered hdata =>
      obtain rfl | ⟨hlocking, -⟩ | ⟨hredeem, -⟩ := prepareRedeem_eq_ok hprepare
      · have hdone : m.scripts.length ≤ m.scriptIndex + 1 := by rw [hscripts, hindex]; rfl
        exact skipEmpty (.finished hdone) (Nat.le_succ_of_le hdone)
      · omega
      · omega
  | finished hindex => omega

theorem Loaded.step {past : List Machine} {m m' : Machine} {done : Bool}
    (h : Loaded first second past m) (hstep : Machine.step env m = .ok done m') :
    Loaded first second (m :: past) m' := by
  obtain ⟨i, s, hnext, -, ⟨-, -, rfl⟩ | ⟨-, hend⟩⟩ := of_step_eq_ok hstep
  · exact h.passed s
  · exact h.endScript (lt_length_of_next? hnext) hend

theorem Run.loaded {past : List Machine} {m : Machine} (h : Run env unlocking locking past m) :
    ∃ first second, Instruction.parse unlocking.bytes = .ok first ∧
      Instruction.parse locking.bytes = .ok second ∧ Loaded first second past m := by
  induction h with
  | start h =>
      obtain ⟨first, second, hstart, rfl⟩ := start_eq_ok_iff.mp h
      refine ⟨first, second, hstart.unlockingParses, hstart.lockingParses, ?_⟩
      cases hempty : unlocking.isEmpty with
      | true => exact .locking (if_pos hempty) rfl (.inl rfl)
      | false => exact .unlocking (if_neg (by simp [hempty])) rfl rfl
  | step run h ih =>
      obtain ⟨first, second, hfirst, hsecond, hloaded⟩ := ih
      exact ⟨first, second, hfirst, hsecond, hloaded.step h⟩

/-- Whatever runs is parsed from the unlocking script, the locking script or the redeem script. -/
theorem Run.running {past : List Machine} {m : Machine} {i : Instruction}
    (h : Run env unlocking locking past m) (hnext : m.next? = some i) :
    ∃ bytes, Running unlocking locking past m bytes ∧ Instruction.parse bytes = .ok m.script := by
  obtain ⟨first, second, hfirst, hsecond, hloaded⟩ := h.loaded
  have hlt := lt_length_of_next? hnext
  cases hloaded with
  | unlocking hindex hscripts hunlocked =>
      have hscript : m.script = first := by rw [script, hscripts, hindex]; rfl
      exact ⟨_, .unlocking hindex, hscript ▸ hfirst⟩
  | locking hindex hscripts hunlocked =>
      have hscript : m.script = second := by rw [script, hscripts, hindex]; rfl
      exact ⟨_, .locking hindex, hscript ▸ hsecond⟩
  | redeem third hindex hscripts hparse hmem hentered hdata =>
      have hscript : m.script = third := by rw [script, hscripts, hindex]; rfl
      exact ⟨_, .redeem hindex hmem hentered hdata, hscript ▸ hparse⟩
  | finished hindex => omega

end UtxoSpend.Machine
