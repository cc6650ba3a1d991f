import Mathlib
import UtxoSpend.Proofs.Machine.UnlockingPhase

/-!
# Which scripts a run loads

The list of scripts grows while a spend runs, but only once, and only if the rules and the locking
script call for it.  Main statement: at every place of every run the scripts are those of the spend,
followed at most by one that is parsed from the top of the stack which the unlocking script left.
-/

namespace UtxoSpend.Machine

open Effect

variable {env : Env} {unlocking locking : Script} {m m' : Machine}

def LeftOnTop (env : Env) (unlocking locking : Script) (item : Bytes) : Prop :=
  ∃ m below, Unlocked env unlocking locking m ∧ m.state.data = item :: below

inductive Loads (env : Env) (unlocking locking : Script) (m : Machine) : Prop
  | both {first second : List Instruction} (hstart : Startable env unlocking locking first second)
      (hscripts : m.scripts = [first, second])
  | redeem {first second third : List Instruction} {redeem : Bytes}
      (hstart : Startable env unlocking locking first second)
      (hcalls : callsForRedeem env locking = true) (htop : LeftOnTop env unlocking locking redeem)
      (hparse : Instruction.parse redeem = .ok third) (hindex : 2 ≤ m.scriptIndex)
      (hscripts : m.scripts = [first, second, third])

theorem Loads.mono (h : Loads env unlocking locking m) (hscripts : m'.scripts = m.scripts)
    (hindex : m.scriptIndex ≤ m'.scriptIndex) : Loads env unlocking locking m' := by
  cases h with
  | both hstart hboth => exact .both hstart (hscripts.trans hboth)
  | redeem hstart hcalls htop hparse hplace hall =>
      exact .redeem hstart hcalls htop hparse (hplace.trans hindex) (hscripts.trans hall)

theorem Loads.length_le (h : Loads env unlocking locking m) : m.scripts.length ≤ 3 := by
  cases h with
  | both hstart hscripts =>
      rw [hscripts]
      exact Nat.le_succ 2
  | redeem hstart hcalls htop hparse hindex hscripts =>
      rw [hscripts]
      exact Nat.le_refl 3

theorem Loads.length_le_add_two (h : Loads env unlocking locking m) :
    m.scripts.length ≤ m.scriptIndex + 2 := by
  cases h with
  | both hstart hscripts =>
      rw [hscripts]
      exact Nat.le_add_left 2 _
  | redeem hstart hcalls htop hparse hindex hscripts =>
      rw [hscripts]
      change 3 ≤ _
      omega

theorem Loads.length_eq_two (h : Loads env unlocking locking m) (hindex : m.scriptIndex < 2) :
    m.scripts.length = 2 := by
  cases h with
  | both hstart hscripts =>
      rw [hscripts]
      rfl
  | redeem hstart hcalls htop hparse hplace hscripts => omega

structure Layout (env : Env) (unlocking locking : Script) (m : Machine) : Prop where
  loads : Loads env unlocking locking m
  redeems : m.redeems = callsForRedeem env locking
  kept : ∀ redeem below, m.unlocked = redeem :: below → LeftOnTop env unlocking locking redeem

theorem Layout.skipEmpty (h : Layout env unlocking locking m) :
    Layout env unlocking locking m.skipEmpty := by
  obtain heq | heq := skipEmpty_eq m <;> rw [heq]
  · exact h
  · exact ⟨h.loads.mono rfl (Nat.le_succ _), h.redeems, h.kept⟩

/-- The redeem script is queued when the locking script has ended, and then for the only time. -/
theorem Layout.queueRedeem (h : Layout env unlocking locking m) (hindex : m.scriptIndex = 1)
    (hredeems : m.redeems = true) (hqueue : Machine.queueRedeem env m.advance = .ok m') :
    Layout env unlocking locking m' := by
  obtain ⟨redeem, below, third, hkept, hparse, rfl⟩ := queueRedeem_eq_ok hqueue
  have htop : LeftOnTop env unlocking locking redeem := h.kept redeem below hkept
  have hnext : m.advance.scriptIndex = 2 := by rw [advance, hindex]
  refine ⟨?_, h.redeems, fun _ _ hnone => by cases hnone⟩
  cases h.loads with
  | both hstart hscripts =>
      refine .redeem hstart (h.redeems ▸ hredeems) htop hparse (Nat.le_of_eq hnext.symm) ?_
      change m.scripts ++ [third] = _
      rw [hscripts]
      rfl
  | redeem hstart hcalls htop' hparse' hplace hscripts => omega

theorem Run.layout {past : List Machine} (h : Run env unlocking locking past m) :
    Layout env unlocking locking m := by
  induction h with
  | start h =>
      obtain ⟨first, second, hstart, rfl⟩ := start_eq_ok_iff.mp h
      exact ⟨.both hstart rfl, rfl, fun _ _ hnone => by cases hnone⟩
  | step run h ih =>
      rename_i past m m' done
      obtain ⟨i, s, -, -, ⟨-, -, rfl⟩ | ⟨-, hend⟩⟩ := of_step_eq_ok h
      · exact ⟨ih.loads.mono rfl (Nat.le_refl _), ih.redeems, ih.kept⟩
      · obtain ⟨next, hprepare, hnext, -⟩ := endScript_eq_ok hend
        have hpassed : Layout env unlocking locking (m.passed s) :=
          ⟨ih.loads.mono rfl (Nat.le_refl _), ih.redeems, ih.kept⟩
        obtain rfl | ⟨⟨-, hindex⟩, rfl⟩ | ⟨⟨hredeems, hindex⟩, hqueue⟩ :=
          prepareRedeem_eq_ok hprepare
        · rw [hnext]
          exact Layout.skipEmpty ⟨ih.loads.mono rfl (Nat.le_succ _), ih.redeems, ih.kept⟩
        · -- The machine has just left the unlocking script, with the stack that is kept.
          have hlater : 0 < m'.scriptIndex :=
            Nat.lt_of_le_of_lt (Nat.zero_le _) (scriptIndex_lt_of_endScript hend)
          have hunlocked := run.unlocked_of_step (Nat.succ.inj hindex) h hlater
          have htop : ∀ redeem below, m'.state.data = redeem :: below →
              LeftOnTop env unlocking locking redeem :=
            fun redeem below hdata => ⟨m', below, hunlocked, hdata⟩
          rw [hnext, state_skipEmpty] at htop
          rw [hnext]
          exact Layout.skipEmpty ⟨ih.loads.mono rfl (Nat.le_succ _), ih.redeems, htop⟩
        · rw [hnext]
          exact (hpassed.queueRedeem (Nat.succ.inj hindex) hredeems hqueue).skipEmpty

end UtxoSpend.Machine
