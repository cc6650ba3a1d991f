import Mathlib
import UtxoSpend.Proofs.Machine.PushOnly
import UtxoSpend.Proofs.Script.Template

/-!
# Spending what is locked to a script hash

A redeem script that is pushed last runs on what was pushed before it, as if it had been the locking
script.  Main statement: both spends are good or bad alike and make the same signature checks in the
same order, whatever the redeem script does.
-/

namespace UtxoSpend

namespace Outcome

def FailsUnchecked (o : Outcome) : Prop := ∃ e, o = ⟨.error e, []⟩

def Agrees (a b : Outcome) : Prop := (a.result = .ok () ↔ b.result = .ok ()) ∧ a.checks = b.checks

theorem Agrees.of_failsUnchecked {a b : Outcome} (ha : a.FailsUnchecked)
    (hb : b.FailsUnchecked) : a.Agrees b := by
  obtain ⟨e, rfl⟩ := ha
  obtain ⟨e', rfl⟩ := hb
  exact ⟨by simp, rfl⟩

theorem Agrees.of_eq {a b : Outcome} (h : a = b) : a.Agrees b := by
  subst h
  exact ⟨Iff.rfl, rfl⟩

end Outcome

namespace Exec

open Machine Script

variable {env : Env}

theorem failsUnchecked_of_error {r : EStateM.Result Failure State Unit} {e : Failure} {s : State}
    (h : r = .error e s) (hchecks : s.checks = []) : (Outcome.ofRun r).FailsUnchecked := by
  subst h
  exact ⟨e, by rw [Outcome.ofRun, hchecks]⟩

theorem runScript_scriptHash (hlimits : env.limits = {}) {redeem : Bytes} {below : Stack}
    (hroom : below.length + 2 ≤ env.limits.stackItems) :
    runScript env (scriptHashInstructions (Hash.hash160 redeem)) { data := redeem :: below } =
      .ok () { data := [1] :: below } := by
  have hsize := length_hash_le hlimits (Hash.hash160 redeem)
  have hdepth : ∀ s : State, s.alt = [] → s.data.length ≤ below.length + 2 →
      s.depth ≤ env.limits.stackItems := by
    intro s halt hlength
    rw [State.depth, halt, List.length_nil]
    omega
  refine runScript_eq_ok_iff.mpr
    ⟨{ data := [1] :: below, operations := 2 }, ?_, rfl, rfl⟩
  refine runFrom_cons_eq_ok_iff.mpr ⟨_,
    (execute_hash160_eq_ok_iff rfl (lt_operations hlimits 0 (by decide))).mpr ⟨_, _, rfl, rfl⟩,
    hdepth _ rfl (by simp), ?_⟩
  refine runFrom_cons_eq_ok_iff.mpr ⟨_, execute_push rfl hsize rfl rfl, hdepth _ rfl (by simp), ?_⟩
  refine runFrom_cons_eq_ok_iff.mpr ⟨_,
    (execute_equal_eq_ok_iff rfl (lt_operations hlimits 1 (by decide))).mpr ⟨_, _, _, rfl, rfl⟩,
    hdepth _ rfl (by simp), ?_⟩
  rw [beq_self_eq_true]
  rfl

theorem runLocking_scriptHash (hlimits : env.limits = {}) {redeem : Bytes} {below : Stack}
    (hroom : below.length + 2 ≤ env.limits.stackItems) :
    runLocking env (scriptHashInstructions (Hash.hash160 redeem)) true (redeem :: below)
        { data := redeem :: below } =
      match Instruction.parse redeem with
      | .error e => .error (.malformed e) { data := [1] :: below }
      | .ok third => runLast env third { data := below } := by
  have htrue : checkResult env false ([1] :: below) = .ok () := rfl
  rw [runLocking_true, Effect.bind_of_ok (runScript_scriptHash hlimits hroom)]
  have htake := takeRedeem_run env (redeem :: below) { data := [1] :: below }
  rw [htrue] at htake
  dsimp only at htake
  cases hparse : Instruction.parse redeem with
  | error e =>
      rw [hparse] at htake
      rw [Effect.bind_of_error htake]
  | ok third =>
      rw [hparse] at htake
      rw [Effect.bind_of_ok htake]

/-! ## Both spends, from the items of the unlocking script -/

variable {us third : List Instruction} {redeem : Bytes}

theorem runSpend_bare (hpush : Instruction.isPushOnly us = true)
    (hroom : us.length ≤ env.limits.stackItems) :
    runSpend env us third false {} =
      match pushItems env us [] with
      | .error e left => .error e { data := left }
      | .ok () items => runLast env third { data := items } := by
  have hrun := runScript_of_pushOnly hpush hroom
  rw [runSpend]
  cases hitems : pushItems env us [] with
  | error e left =>
      rw [hitems] at hrun
      rw [Effect.bind_of_error hrun]
  | ok u items =>
      rw [hitems] at hrun
      rw [Effect.bind_of_ok hrun, Effect.get_bind_run, runLocking_false]

theorem runSpend_scriptHash (hpush : Instruction.isPushOnly us = true)
    (hroom : us.length + 2 ≤ env.limits.stackItems) :
    runSpend env (us ++ [.push redeem]) (scriptHashInstructions (Hash.hash160 redeem)) true {} =
      match pushItems env us [] with
      | .error e left => .error e { data := left }
      | .ok () items =>
        match pushedItem env (.push redeem) with
        | .error e => .error e { data := items }
        | .ok item => runLocking env (scriptHashInstructions (Hash.hash160 redeem)) true
            (item :: items) { data := item :: items } := by
  have hroom' : (us ++ [Instruction.push redeem]).length ≤ env.limits.stackItems := by
    rw [List.length_append, List.length_singleton]
    omega
  have hrun := runScript_of_pushOnly (isPushOnly_append_push hpush redeem) hroom'
  rw [pushItems_append] at hrun
  rw [runSpend]
  cases hitems : pushItems env us [] with
  | error e left =>
      rw [hitems] at hrun
      rw [Effect.bind_of_error hrun]
  | ok u items =>
      rw [hitems] at hrun
      dsimp only at hrun ⊢
      rw [pushItems] at hrun
      cases hitem : pushedItem env (.push redeem) with
      | error e =>
          rw [hitem] at hrun
          rw [Effect.bind_of_error hrun]
      | ok item =>
          rw [hitem] at hrun
          rw [Effect.bind_of_ok hrun, Effect.get_bind_run]

end Exec

namespace Machine

open Exec Script

variable {env : Env}

theorem failsUnchecked_or_startable (env : Env) (unlocking locking : Script) :
    (evaluate env unlocking locking).FailsUnchecked ∨
      ∃ first second, Startable env unlocking locking first second := by
  cases hstart : start env unlocking locking with
  | error e => exact .inl ⟨e, evaluate_of_start_error hstart⟩
  | ok m =>
      obtain ⟨first, second, h, -⟩ := start_eq_ok_iff.mp hstart
      exact .inr ⟨first, second, h⟩

theorem runLast_byte_fails (hlimits : env.limits = {}) {items : Stack} {b : UInt8}
    {third : List Instruction} (hparse : Instruction.parse [b] = .ok third)
    (hnumber : 1 ≤ b ∧ b ≤ 16 ∨ b = 0x81) :
    (Outcome.ofRun (runLast env third { data := items })).FailsUnchecked := by
  obtain ⟨rfl, hfits⟩ := Instruction.fits_of_parse_singleton hparse
  rcases hnumber with ⟨hone, hsixteen⟩ | rfl
  · have htable : ∀ n : Fin 17, 1 ≤ n.val → ¬Instruction.Fits ⟨UInt8.ofNat n.val, []⟩ := by decide
    have hlt : b.toNat < 17 := Nat.lt_succ_of_le (UInt8.le_iff_toNat_le.mp hsixteen)
    have hnot := htable ⟨b.toNat, hlt⟩ (UInt8.le_iff_toNat_le.mp hone)
    rw [UInt8.ofNat_toNat] at hnot
    exact absurd hfits hnot
  · have hexec : execute env [⟨0x81, []⟩] 0 ⟨0x81, []⟩ { data := items } =
        .error (.disabled 0x81) { data := items, operations := 1 } :=
      execute_of_disabled rfl rfl rfl (lt_operations hlimits 0 (by decide))
    have hbounded : executeBounded env [⟨0x81, []⟩] 0 ⟨0x81, []⟩ { data := items } =
        .error (.disabled 0x81) { data := items, operations := 1 } := by
      rw [executeBounded_run, hexec]
    have hrun : runScript env [⟨0x81, []⟩] { data := items } =
        .error (.disabled 0x81) { data := items, operations := 1 } := by
      rw [runScript_run, runFrom, Effect.bind_of_error hbounded]
    exact failsUnchecked_of_error (runLast_of_error hrun) rfl

/-- An unlocking script that only pushes, a redeem script, and the former followed by a push of the
latter, none of them too large. -/
structure Redeemable (env : Env) (unlocking redeem pushed : Script) (us : List Instruction) :
    Prop where
  parses : unlocking.instructions = .ok us
  pushOnly : Instruction.isPushOnly us = true
  room : us.length + 2 ≤ env.limits.stackItems
  redeemSize : redeem.size ≤ env.limits.elementSize
  plain : redeem.isPayToScriptHash = false
  appended : unlocking.appendPush redeem.bytes = .ok pushed
  size : pushed.size ≤ env.limits.scriptSize

namespace Redeemable

variable {unlocking redeem pushed : Script} {us third : List Instruction}

theorem callsForRedeem_hashed (hflag : env.has .payToScriptHash = true) (redeem : Script) :
    callsForRedeem env (payToScript redeem) = true := by
  rw [callsForRedeem, hflag, payToScript, isPayToScriptHash_payToScriptHash, Bool.and_true]

theorem callsForRedeem_bare (h : Redeemable env unlocking redeem pushed us) :
    callsForRedeem env redeem = false := by
  rw [callsForRedeem, h.plain, Bool.and_false]

theorem startable_hashed (h : Redeemable env unlocking redeem pushed us) (hlimits : env.limits = {})
    (hflag : env.has .payToScriptHash = true) :
    Startable env pushed (payToScript redeem) (us ++ [.push redeem.bytes])
      (scriptHashInstructions (Hash.hash160 redeem.bytes)) where
  flags := fun _ => hflag
  unlockingSize := h.size
  lockingSize := by
    rw [payToScript, size_payToScriptHash, hlimits]
    decide
  nonempty := by
    rintro ⟨-, hempty⟩
    cases hempty
  unlockingParses := instructions_appendPush h.parses h.appended
  lockingParses := instructions_payToScriptHash _
  pushOnly := fun _ => isPushOnly_append_push h.pushOnly redeem.bytes
  redeemPushOnly := fun _ => isPushOnly_append_push h.pushOnly redeem.bytes

theorem startable_bare (h : Redeemable env unlocking redeem pushed us) (hlimits : env.limits = {})
    (hflag : env.has .payToScriptHash = true) (hthird : redeem.instructions = .ok third)
    (hnonempty : ¬(unlocking.isEmpty = true ∧ redeem.isEmpty = true)) :
    Startable env unlocking redeem us third where
  flags := fun _ => hflag
  unlockingSize := le_trans (size_le_of_appendPush h.appended) h.size
  lockingSize := by
    have hsize := h.redeemSize
    rw [hlimits] at hsize ⊢
    exact le_trans hsize (by decide)
  nonempty := hnonempty
  unlockingParses := h.parses
  lockingParses := hthird
  pushOnly := fun _ => h.pushOnly
  redeemPushOnly := fun _ => h.pushOnly

theorem evaluate_bare (h : Redeemable env unlocking redeem pushed us) :
    (evaluate env unlocking redeem).FailsUnchecked ∨
      ∃ third, Startable env unlocking redeem us third ∧
        evaluate env unlocking redeem =
          .ofRun (match pushItems env us [] with
            | .error e left => .error e { data := left }
            | .ok () items => runLast env third { data := items }) := by
  have hroom : us.length ≤ env.limits.stackItems := by
    have hroom := h.room
    omega
  rcases failsUnchecked_or_startable env unlocking redeem with hfails | ⟨first, third, hstart⟩
  · exact .inl hfails
  · have hfirst := hstart.unlockingParses
    rw [h.parses] at hfirst
    cases hfirst
    right
    refine ⟨third, hstart, ?_⟩
    rw [evaluate_of_startable hstart, h.callsForRedeem_bare, runSpend_bare h.pushOnly hroom]

theorem agrees_of_items (h : Redeemable env unlocking redeem pushed us) (hlimits : env.limits = {})
    (hflag : env.has .payToScriptHash = true) {items : Stack} {o : Outcome}
    (hitems : pushItems env us [] = .ok () items)
    (ho : o = .ofRun (runLocking env (scriptHashInstructions (Hash.hash160 redeem.bytes)) true
      (redeem.bytes :: items) { data := redeem.bytes :: items })) :
    o.Agrees (evaluate env unlocking redeem) := by
  have hlength : items.length + 2 ≤ env.limits.stackItems := by
    rw [length_of_pushItems hitems, List.length_nil, Nat.zero_add]
    exact h.room
  rw [runLocking_scriptHash hlimits hlength] at ho
  cases hthird : Instruction.parse redeem.bytes with
  | error e =>
      rw [hthird] at ho
      refine .of_failsUnchecked ⟨.malformed e, ho⟩ ?_
      rcases h.evaluate_bare with hfails | ⟨third, hstart, -⟩
      · exact hfails
      · have hlocking := hstart.lockingParses
        rw [Script.instructions, hthird] at hlocking
        cases hlocking
  | ok third =>
      rw [hthird] at ho
      dsimp only at ho
      -- Two empty scripts are refused before they run, an empty redeem script only at its end.
      by_cases hempty : unlocking.isEmpty = true ∧ redeem.isEmpty = true
      · have hus : us = [] := (isEmpty_iff h.parses).mp hempty.1
        have hnil : third = [] := (isEmpty_iff hthird).mp hempty.2
        subst hus hnil
        cases hitems
        refine .of_failsUnchecked ⟨.emptyFinalStack, ho⟩ ?_
        rcases h.evaluate_bare with hfails | ⟨third, hstart, -⟩
        · exact hfails
        · exact absurd hempty hstart.nonempty
      · have hroom : us.length ≤ env.limits.stackItems := by
          have hroom := h.room
          omega
        have heval := evaluate_of_startable (h.startable_bare hlimits hflag hthird hempty)
        rw [h.callsForRedeem_bare, runSpend_bare h.pushOnly hroom, hitems] at heval
        exact .of_eq (ho.trans heval.symm)

end Redeemable

/-- A redeem script is spent through its hash as it is spent when it is the locking script. -/
theorem evaluate_payToScript_agrees {env : Env} {unlocking redeem pushed : Script}
    {us : List Instruction} (hlimits : env.limits = {}) (hflag : env.has .payToScriptHash = true)
    (h : Redeemable env unlocking redeem pushed us) :
    (evaluate env pushed (payToScript redeem)).Agrees (evaluate env unlocking redeem) := by
  have hhashed := evaluate_of_startable (h.startable_hashed hlimits hflag)
  rw [Redeemable.callsForRedeem_hashed hflag, runSpend_scriptHash h.pushOnly h.room] at hhashed
  cases hitems : pushItems env us [] with
  | error e left =>
      rw [hitems] at hhashed
      refine .of_failsUnchecked ⟨e, hhashed⟩ ?_
      rcases h.evaluate_bare with hfails | ⟨third, -, hbare⟩
      · exact hfails
      · rw [hitems] at hbare
        exact ⟨e, hbare⟩
  | ok u items =>
      rw [hitems] at hhashed
      dsimp only at hhashed
      rcases pushedItem_push h.redeemSize with hitem | ⟨e, b, hitem, hb, hnumber⟩
      · rw [hitem] at hhashed
        exact h.agrees_of_items hlimits hflag hitems hhashed
      · -- Only a redeem script of one byte can be a wasteful push, and such a script fails.
        rw [hitem] at hhashed
        refine .of_failsUnchecked ⟨e, hhashed⟩ ?_
        rcases h.evaluate_bare with hfails | ⟨third, hstart, hbare⟩
        · exact hfails
        · have hthird : Instruction.parse [b] = .ok third := hb ▸ hstart.lockingParses
          rw [hitems] at hbare
          rw [hbare]
          exact runLast_byte_fails hlimits hthird hnumber

def trustingEnv : Env :=
  ⟨.payToScriptHash, {}, some ⟨0, 1, fun _ => 0, fun _ _ => some true⟩, 0⟩

/-- A signature and a key, and a script that asks for one check. -/
theorem evaluate_payToScript_agrees_checkSig :
    trustingEnv.limits = {} ∧ trustingEnv.has .payToScriptHash = true ∧
      Redeemable trustingEnv ⟨[2, 0x30, 0x01, 2, 0x02, 0x03]⟩ ⟨[0xac]⟩
        ⟨[2, 0x30, 0x01, 2, 0x02, 0x03, 1, 0xac]⟩ [⟨2, [0x30, 0x01]⟩, ⟨2, [0x02, 0x03]⟩] ∧
      (evaluate trustingEnv ⟨[2, 0x30, 0x01, 2, 0x02, 0x03, 1, 0xac]⟩
        (payToScript ⟨[0xac]⟩)).Agrees
      (evaluate trustingEnv ⟨[2, 0x30, 0x01, 2, 0x02, 0x03]⟩ ⟨[0xac]⟩) := by
  have h : Redeemable trustingEnv ⟨[2, 0x30, 0x01, 2, 0x02, 0x03]⟩ ⟨[0xac]⟩
      ⟨[2, 0x30, 0x01, 2, 0x02, 0x03, 1, 0xac]⟩ [⟨2, [0x30, 0x01]⟩, ⟨2, [0x02, 0x03]⟩] := {
    parses := Instruction.parse_eq_ok_iff.mpr ⟨by decide, rfl⟩
    pushOnly := by decide
    room := by decide
    redeemSize := by decide
    plain := by decide
    appended := rfl
    size := by decide }
  exact ⟨rfl, rfl, h, evaluate_payToScript_agrees rfl rfl h⟩

end Machine

end UtxoSpend
