import Mathlib
import UtxoSpend.Proofs.Machine.Deletion
import UtxoSpend.Proofs.Machine.PayToScriptHash
import UtxoSpend.Proofs.Machine.Run

/-!
# What every signature check is asked

The place where the signed code begins is a number in the state, which each script resets and each
executed code separator moves.  Here it is read off the history of a run.  Main statement: whatever
the scripts, rules and transaction are, every check that a run asks for is about a signature and a
key that the opcode took from the stack, about the input in question, and about the bytes of the
running script behind the last code separator that was executed in it.
-/

namespace UtxoSpend

open Effect

namespace Instruction

/-- Without a fork id, signatures do not sign code separators and pushes of themselves. -/
def isUnsigned (signatures : List Bytes) (i : Instruction) : Bool :=
  i.op == Opcode.codeSeparator ||
    signatures.any fun signature => decide (Script.empty.appendPush signature = .ok ⟨i.encode⟩)

end Instruction

theorem Exec.signedCode_of_not_forkId {env : Env} (hfork : env.has .forkId = false)
    (part : List Instruction) (signatures : List Bytes) :
    signedCode env part signatures =
      Instruction.unparse (part.filter fun i => !i.isUnsigned signatures) := by
  rw [signedCode_eq_applyAll hfork, Cut.applyAll_eq_filter]
  refine congrArg Instruction.unparse (List.filter_congr fun i _ => ?_)
  rw [Instruction.isUnsigned, Bool.not_or, List.not_any_eq_all_not, List.all_append, List.all_map,
    Bool.and_comm]
  simp [Cut.keeps, Function.comp_def, bne]

namespace Machine

open Exec

variable {env : Env} {unlocking locking : Script}

/-! ## Code separators in the history -/

def separates (m : Machine) : Bool :=
  m.isExecuting && m.next?.any fun i => i.op == Opcode.codeSeparator

def lastSeparator? (past : List Machine) (m : Machine) : Option Machine :=
  past.find? fun p => p.scriptIndex == m.scriptIndex && p.separates

def signedFrom (past : List Machine) (m : Machine) : Nat :=
  match lastSeparator? past m with
  | none => 0
  | some p => p.offset + 1

theorem state_of_endScript {m m' : Machine} {done : Bool} (h : endScript env m = .ok done m') :
    ∃ data, m'.state = { m.state.nextScript with data := data } := by
  obtain ⟨next, hprepare, rfl, -⟩ := endScript_eq_ok h
  have hskip : next.skipEmpty.state = next.state := by
    obtain heq | heq := skipEmpty_eq next <;> rw [heq]
  rw [hskip]
  obtain rfl | ⟨-, rfl⟩ | ⟨-, hqueue⟩ := prepareRedeem_eq_ok hprepare
  · exact ⟨_, rfl⟩
  · exact ⟨_, rfl⟩
  · obtain ⟨redeem, below, third, -, -, rfl⟩ := queueRedeem_eq_ok hqueue
    exact ⟨below, rfl⟩

theorem separates_iff {m : Machine} {i : Instruction} (hnext : m.next? = some i) :
    m.separates = true ↔ m.state.isExecuting = true ∧ i.op = Opcode.codeSeparator := by
  rw [separates, isExecuting, hnext, Option.any_some, Bool.and_eq_true, beq_iff_eq]

/-- A step within a script moves the signed part exactly if it executes a code separator. -/
theorem codeStart_of_step {m m' : Machine} {done : Bool} (h : step env m = .ok done m') :
    (m'.script = m.script ∧ m'.scriptIndex = m.scriptIndex) ∧
        m'.state.codeStart = (if m.separates then m.offset + 1 else m.state.codeStart) ∨
      m.scriptIndex < m'.scriptIndex ∧ m'.state.codeStart = 0 := by
  obtain ⟨i, s, hnext, hbounded, ⟨-, -, rfl⟩ | ⟨-, hend⟩⟩ := of_step_eq_ok h
  · refine .inl ⟨⟨rfl, rfl⟩, ?_⟩
    rw [passed, codeStart_of_execute (executeBounded_eq_ok_iff.mp hbounded).1]
    simp only [separates_iff hnext]
  · have hlt : (m.passed s).scriptIndex < m'.scriptIndex := scriptIndex_lt_of_endScript hend
    obtain ⟨data, hstate⟩ := state_of_endScript hend
    refine .inr ⟨hlt, ?_⟩
    rw [hstate]
    rfl

/-- What stands right before the signed part, if anything, is a code separator. -/
theorem Run.op_before_codeStart {past : List Machine} {m : Machine}
    (h : Run env unlocking locking past m) {n : Nat} (hstart : m.state.codeStart = n + 1) :
    ∃ i, m.script[n]? = some i ∧ i.op = Opcode.codeSeparator := by
  induction h with
  | start h =>
      obtain ⟨first, second, -, rfl⟩ := start_eq_ok_iff.mp h
      cases hstart
  | step run h ih =>
      rename_i past m m' done
      obtain ⟨⟨hscript, -⟩, hmoved⟩ | ⟨-, hreset⟩ := codeStart_of_step h
      · rw [hscript]
        cases hseparates : m.separates with
        | true =>
            obtain ⟨i, s, hnext, -, -⟩ := of_step_eq_ok h
            rw [hseparates, if_pos rfl, hstart] at hmoved
            cases Nat.succ.inj hmoved
            exact ⟨i, hnext, ((separates_iff hnext).mp hseparates).2⟩
        | false =>
            rw [hseparates, if_neg (by decide), hstart] at hmoved
            exact ih hmoved.symm
      · rw [hreset] at hstart
        cases hstart

theorem Run.codeStart_eq {past : List Machine} {m : Machine}
    (h : Run env unlocking locking past m) : m.state.codeStart = signedFrom past m := by
  induction h with
  | start h =>
      obtain ⟨first, second, -, rfl⟩ := start_eq_ok_iff.mp h
      rfl
  | step run h ih =>
      rename_i past m m' done
      obtain ⟨⟨-, hindex⟩, hstart⟩ | ⟨hlt, hstart⟩ := codeStart_of_step h
      · rw [hstart, signedFrom, lastSeparator?, List.find?_cons, hindex, beq_self_eq_true,
          Bool.true_and]
        cases m.separates with
        | true => rfl
        | false => exact ih
      · -- The new script has not been run before, so no separator of it has.
        have hnone : lastSeparator? (m :: past) m' = none := by
          refine List.find?_eq_none.mpr fun p hp => ?_
          have hle := run.scriptIndex_le hp
          have hne : p.scriptIndex ≠ m'.scriptIndex := by omega
          simp [hne]
        rw [hstart, signedFrom, hnone]

/-! ## What a step asks -/

theorem checks_left_endScript (env : Env) (m : Machine) :
    (left (endScript env m)).state.checks = m.state.checks := by
  cases h : endScript env m with
  | ok done m' =>
      obtain ⟨data, hstate⟩ := state_of_endScript h
      rw [left, hstate]
      rfl
  | error e m' =>
      unfold endScript at h
      split_ifs at h
      · cases h
        rfl
      · split at h
        · cases h
          rfl
        · cases h

theorem step_asked (env : Env) (m : Machine) :
    ∃ asked, (left (step env m)).state.checks = m.state.checks ++ asked ∧
      ∀ check ∈ asked, ∃ i, m.next? = some i ∧
        AskedBy env m.script i.op.action m.state check := by
  cases hnext : m.next? with
  | none =>
      rw [step, hnext]
      exact ⟨[], (List.append_nil _).symm, by simp⟩
  | some i =>
      obtain ⟨asked, hchecks, hasked⟩ := execute_asked env m.script m.offset i m.state
      refine ⟨asked, ?_, fun check hmem => ⟨i, rfl, hasked check hmem⟩⟩
      rw [step, hnext]
      dsimp only
      cases hexec : execute env m.script m.offset i m.state with
      | error e s =>
          rw [hexec] at hchecks
          exact hchecks
      | ok u s =>
          rw [hexec] at hchecks
          dsimp only
          split_ifs
          · exact hchecks
          · exact hchecks
          · rw [checks_left_endScript]
            exact hchecks

/-! ## What a run asks -/

/-- The signed part of the running script: what follows the last code separator executed in it, or
all of it. The script is parsed into what is before, up to that separator, and the part. -/
structure SignedPart (unlocking locking : Script) (past : List Machine) (m : Machine)
    (bytes : Bytes) (before part : List Instruction) : Prop where
  running : Running unlocking locking past m bytes
  parses : Instruction.parse bytes = .ok (before ++ part)
  length_before : before.length = signedFrom past m
  separator : ∀ i ∈ before.getLast?, i.op = Opcode.codeSeparator
  bytes_eq : bytes = (Instruction.unparse before).bytes ++ (Instruction.unparse part).bytes

/-- A check as it should be asked for by the instruction that a run has come to. -/
structure Asked (env : Env) (unlocking locking : Script) (past : List Machine) (m : Machine)
    (check : SignatureCheck) : Prop where
  hashType : check.signature.getLast? = some check.hashType
  inputIndex : check.inputIndex = env.inputIndex
  forkIdBit : env.has .forkId = true → check.hashType &&& forkIdBit ≠ 0
  signedCode : ∃ i keys signatures bytes before part, m.next? = some i ∧
    Takes env.numberRule i.op.action m.state.data keys signatures ∧
    check.publicKey ∈ keys ∧ check.signature ∈ signatures ∧
    SignedPart unlocking locking past m bytes before part ∧
    (env.has .forkId = true → check.code = Instruction.unparse part) ∧
    (env.has .forkId = false →
      check.code = Instruction.unparse (part.filter fun i => !i.isUnsigned signatures))

theorem Run.signedFrom_le {past : List Machine} {m : Machine}
    (h : Run env unlocking locking past m) : signedFrom past m ≤ m.offset := by
  unfold signedFrom
  split
  · exact Nat.zero_le _
  · rename_i p hlast
    have hbefore := h.before (List.mem_of_find?_eq_some hlast)
    have hindex := List.find?_some hlast
    simp only [Bool.and_eq_true, beq_iff_eq] at hindex
    unfold Before at hbefore
    omega

theorem Run.signedPart {past : List Machine} {m : Machine} {i : Instruction}
    (h : Run env unlocking locking past m) (hnext : m.next? = some i) :
    ∃ bytes, SignedPart unlocking locking past m bytes
      (m.script.take m.state.codeStart) (m.script.drop m.state.codeStart) := by
  obtain ⟨bytes, hrunning, hparse⟩ := h.running hnext
  have hoffset : m.offset < m.script.length := (List.getElem?_eq_some_iff.mp hnext).1
  have hle := h.signedFrom_le
  refine ⟨bytes, hrunning, ?_, ?_, ?_, ?_⟩
  · rw [List.take_append_drop]
    exact hparse
  · rw [h.codeStart_eq, List.length_take, Nat.min_eq_left (by omega)]
  · intro j hlast
    cases hstart : m.state.codeStart with
    | zero =>
        rw [hstart] at hlast
        cases hlast
    | succ n =>
        obtain ⟨k, hget, hop⟩ := h.op_before_codeStart hstart
        rw [hstart, List.getLast?_take, if_neg (Nat.succ_ne_zero n), Nat.add_sub_cancel, hget,
          Option.some_or] at hlast
        cases hlast
        exact hop
  · rw [(Instruction.parse_eq_ok_iff.mp hparse).2]
    change _ = List.flatMap _ _ ++ List.flatMap _ _
    rw [← List.flatMap_append, List.take_append_drop]

theorem Run.asked {past : List Machine} {m : Machine} (h : Run env unlocking locking past m) :
    ∃ asked, (left (Machine.step env m)).state.checks = m.state.checks ++ asked ∧
      ∀ check ∈ asked, Asked env unlocking locking past m check := by
  obtain ⟨asked, hchecks, hasked⟩ := step_asked env m
  refine ⟨asked, hchecks, fun check hmem => ?_⟩
  obtain ⟨i, hnext, keys, signatures, htakes, hcheck⟩ := hasked check hmem
  obtain ⟨bytes, hpart⟩ := h.signedPart hnext
  refine ⟨hcheck.hashType, hcheck.inputIndex, hcheck.forkIdBit, ?_⟩
  refine ⟨i, keys, signatures, bytes, _, _, hnext, htakes, hcheck.publicKey, hcheck.signature,
    hpart, fun hfork => ?_, fun hfork => ?_⟩
  · rw [hcheck.code, Exec.signedCode, if_pos hfork]
  · rw [hcheck.code, signedCode_of_not_forkId hfork]

def IsAsked (env : Env) (unlocking locking : Script) (check : SignatureCheck) : Prop :=
  ∃ past m, Run env unlocking locking past m ∧ Asked env unlocking locking past m check

theorem Run.steps_asked {past : List Machine} {m : Machine} (h : Run env unlocking locking past m)
    (hchecks : ∀ check ∈ m.state.checks, IsAsked env unlocking locking check) (count : Nat) :
    ∀ check ∈ (left (steps env count m)).state.checks, IsAsked env unlocking locking check := by
  induction count generalizing past m with
  | zero => exact hchecks
  | succ count ih =>
      have hleft : ∀ check ∈ (left (Machine.step env m)).state.checks,
          IsAsked env unlocking locking check := by
        obtain ⟨asked, heq, hasked⟩ := h.asked
        intro check hmem
        rw [heq] at hmem
        rcases List.mem_append.mp hmem with hmem | hmem
        · exact hchecks check hmem
        · exact ⟨past, m, h, hasked check hmem⟩
      rw [steps_succ]
      cases hstep : Machine.step env m with
      | error e m' =>
          rw [hstep] at hleft
          exact hleft
      | ok done m' =>
          rw [hstep] at hleft
          cases done with
          | true => exact hleft
          | false => exact ih (h.step hstep) hleft

theorem checks_evaluate {m : Machine} (h : start env unlocking locking = .ok m) :
    (evaluate env unlocking locking).checks = (left (run env m)).state.checks := by
  rw [evaluate_eq_conclude h]
  cases run env m with
  | error e m => rfl
  | ok done m => cases done <;> rfl

theorem evaluate_asked {check : SignatureCheck}
    (hmem : check ∈ (evaluate env unlocking locking).checks) :
    IsAsked env unlocking locking check := by
  cases hstart : start env unlocking locking with
  | error e =>
      rw [evaluate_of_start_error hstart] at hmem
      cases hmem
  | ok m =>
      rw [checks_evaluate hstart] at hmem
      have hinitial : ∀ check ∈ m.state.checks, IsAsked env unlocking locking check := by
        obtain ⟨first, second, -, rfl⟩ := start_eq_ok_iff.mp hstart
        exact fun check hmem => by cases hmem
      have hfirst := (Run.start hstart).steps_asked hinitial m.instructionsLeft
      rw [run] at hmem
      cases hsteps : steps env m.instructionsLeft m with
      | error e m' =>
          rw [hsteps] at hfirst hmem
          exact hfirst check hmem
      | ok done m' =>
          rw [hsteps] at hfirst hmem
          cases done with
          | true => exact hfirst check hmem
          | false =>
              obtain ⟨past', hrun⟩ := (Run.start hstart).of_steps hsteps
              exact hrun.steps_asked hfirst _ check hmem

/-- Every step of every run asks only for what should be asked, and so does every evaluation. -/
theorem checks_are_asked (env : Env) (unlocking locking : Script) :
    (∀ past m, Run env unlocking locking past m →
      ∃ asked, (left (step env m)).state.checks = m.state.checks ++ asked ∧
        ∀ check ∈ asked, Asked env unlocking locking past m check) ∧
    ∀ check ∈ (evaluate env unlocking locking).checks,
      ∃ past m, Run env unlocking locking past m ∧ Asked env unlocking locking past m check :=
  ⟨fun _ _ h => h.asked, fun _ hmem => evaluate_asked hmem⟩

/-- A script with a separator before the key, one behind it, one after the check, and a push of the
signature in between: only a drop and the opcode itself are signed. -/
def separatedScript : Script :=
  ⟨[0xab, 0x02, 0x02, 0xaa, 0xab, 0x02, 0x30, 0x01, 0x75, 0xac, 0xab]⟩

theorem checks_are_asked_separated :
    (evaluate trustingEnv ⟨[0x02, 0x30, 0x01]⟩ separatedScript).checks =
        [⟨[0x30, 0x01], [0x02, 0xaa], ⟨[0x75, 0xac]⟩, 0, 0x01⟩] ∧
    ∃ past m, Run trustingEnv ⟨[0x02, 0x30, 0x01]⟩ separatedScript past m ∧
      Asked trustingEnv ⟨[0x02, 0x30, 0x01]⟩ separatedScript past m
        ⟨[0x30, 0x01], [0x02, 0xaa], ⟨[0x75, 0xac]⟩, 0, 0x01⟩ ∧
      ∃ asked, (left (step trustingEnv m)).state.checks = m.state.checks ++ asked ∧
        ∀ check ∈ asked,
          Asked trustingEnv ⟨[0x02, 0x30, 0x01]⟩ separatedScript past m check := by
  have hchecks : (evaluate trustingEnv ⟨[0x02, 0x30, 0x01]⟩ separatedScript).checks =
      [⟨[0x30, 0x01], [0x02, 0xaa], ⟨[0x75, 0xac]⟩, 0, 0x01⟩] := by
    decide +kernel
  obtain ⟨hsteps, hevaluate⟩ := checks_are_asked trustingEnv ⟨[0x02, 0x30, 0x01]⟩ separatedScript
  obtain ⟨past, m, hrun, hasked⟩ := hevaluate _ (hchecks ▸ List.mem_singleton_self _)
  exact ⟨hchecks, past, m, hrun, hasked, hsteps past m hrun⟩

end Machine

end UtxoSpend
