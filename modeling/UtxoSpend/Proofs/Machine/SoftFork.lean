import Mathlib
import UtxoSpend.Proofs.Machine.Operations

/-!
# Adding rules only takes spends away

A rule is looked at in many places, and in each of them it may add a failure but changes neither a
stack nor a branch.  Two runs, one under more rules than the other, are therefore in the same state
as long as the first does not fail.  Main statement: a spend that is good under a soft fork of some
rules is good under these rules.
-/

namespace UtxoSpend

namespace Effect

variable {ε σ α β : Type}

/-- Wherever the first operation succeeds, the second does the same. -/
def Within (x y : EStateM ε σ α) : Prop := ∀ s a t, x s = .ok a t → y s = .ok a t

theorem Within.refl (x : EStateM ε σ α) : Within x x := fun _ _ _ h => h

theorem Within.bind {x y : EStateM ε σ α} {f g : α → EStateM ε σ β} (h : Within x y)
    (h' : ∀ a, Within (f a) (g a)) : Within (x >>= f) (y >>= g) := by
  intro s b t hrun
  obtain ⟨a, u, hx, hf⟩ := bind_eq_ok.mp hrun
  exact bind_eq_ok.mpr ⟨a, u, h s a u hx, h' a u b t hf⟩

theorem Within.ite {x y x' y' : EStateM ε σ α} {p : Prop} [Decidable p] (h : Within x y)
    (h' : Within x' y') : Within (if p then x else x') (if p then y else y') := by
  split_ifs
  · exact h
  · exact h'

theorem Within.get_bind {f g : σ → EStateM ε σ β} (h : ∀ s, Within (f s) (g s)) :
    Within (get >>= f) (get >>= g) := (Within.refl get).bind h

end Effect

open Effect

/-! ## Rules -/

namespace Flags

theorem has_of_subset {before after : Flags} (hsubset : after.has before = true) (rule : Flags)
    (h : before.has rule = true) : after.has rule = true := by
  simp only [has, beq_iff_eq] at *
  rw [← h, ← UInt32.and_assoc, hsubset]

/-- The rules `after` add to the rules `before`, and in such a way that they only forbid. -/
structure SoftFork (before after : Flags) : Prop where
  subset : after.has before = true
  forkId : after.has .forkId = before.has .forkId
  notDiscouraged : before.has .discourageUpgradable = false
  cleanStack : before.has .cleanStack = true → before.has .payToScriptHash = true

end Flags

def Env.under (env : Env) (flags : Flags) : Env := { env with flags := flags }

structure Env.Relaxed (strict lax : Env) : Prop where
  limits : lax.limits = strict.limits
  context : lax.context = strict.context
  inputIndex : lax.inputIndex = strict.inputIndex
  forkId : lax.has .forkId = strict.has .forkId
  notDiscouraged : lax.has .discourageUpgradable = false
  rules : ∀ rule, lax.has rule = true → strict.has rule = true

theorem Flags.SoftFork.relaxed {before after : Flags} (h : before.SoftFork after) (env : Env) :
    (env.under after).Relaxed (env.under before) where
  limits := rfl
  context := rfl
  inputIndex := rfl
  forkId := h.forkId.symm
  notDiscouraged := h.notDiscouraged
  rules := Flags.has_of_subset h.subset

/-! ## Numbers and stacks -/

structure NumberRule.Relaxed (strict lax : NumberRule) : Prop where
  maxLength : lax.maxLength = strict.maxLength
  minimal : lax.minimal = true → strict.minimal = true

theorem Number.decode_of_relaxed {strict lax : NumberRule} (h : strict.Relaxed lax) {item : Bytes}
    {n : Int64} (hread : decode strict item = .ok n) : decode lax item = .ok n := by
  rw [decode] at hread ⊢
  rw [h.maxLength]
  split_ifs at hread with hlength hminimal
  have hlax : ¬(lax.minimal && !isMinimal item) = true := by
    intro hboth
    rw [Bool.and_eq_true] at hboth
    exact hminimal (by rw [h.minimal hboth.1, hboth.2]; rfl)
  rw [if_neg hlength, if_neg hlax]
  exact hread

namespace Stack

variable {strict lax : NumberRule} (h : strict.Relaxed lax)
include h

theorem popNumber_within : Within (popNumber strict) (popNumber lax) := by
  refine (Within.refl pop).bind fun item s n t hrun => ?_
  cases hread : Number.decode strict item with
  | error e =>
      rw [hread] at hrun
      cases hrun
  | ok n =>
      rw [hread] at hrun
      rw [Number.decode_of_relaxed h hread]
      exact hrun

theorem popPosition_within : Within (popPosition strict) (popPosition lax) :=
  (popNumber_within h).bind fun _ => .refl _

theorem run_within (op : StackOp) : Within (op.run strict) (op.run lax) := by
  -- Only the operations that read numbers look at the rule.
  cases op with
  | pick => exact (popPosition_within h).bind fun _ => .refl _
  | roll => exact (popPosition_within h).bind fun _ => .refl _
  | unary op => exact (popNumber_within h).bind fun _ => .refl _
  | binary op =>
      refine (popNumber_within h).bind fun _ => ?_
      exact (popNumber_within h).bind fun _ => .refl _
  | within =>
      refine (popNumber_within h).bind fun _ => (popNumber_within h).bind fun _ => ?_
      exact (popNumber_within h).bind fun _ => .refl _
  | _ => exact .refl _

end Stack

namespace Exec

/-! ## Building blocks -/

theorem failIf_within {strict lax : Bool} (h : strict = false → lax = false) (failure : Failure) :
    Within (failIf strict failure) (failIf lax failure) := by
  intro s u t hrun
  cases strict with
  | true => cases hrun
  | false =>
      rw [h rfl]
      exact hrun

theorem onData_within {α : Type} {x y : StackM α} (h : Within x y) :
    Within (onData x) (onData y) := by
  intro s a t hrun
  rw [onData_run] at hrun ⊢
  cases hx : x s.data with
  | error e data =>
      rw [hx] at hrun
      cases hrun
  | ok b data =>
      rw [hx] at hrun
      rw [h _ _ _ hx]
      exact hrun

theorem test_within {strict lax : Except Failure Unit} (h : strict = .ok () → lax = .ok ()) :
    Within (test strict) (test lax) := by
  intro s u t hrun
  cases strict with
  | error e => cases hrun
  | ok u =>
      rw [h rfl]
      exact hrun

/-- A test changes nothing, so it may as well be left out. -/
theorem test_within_pure (verdict : Except Failure Unit) :
    Within (test verdict) (pure ()) := by
  intro s u t hrun
  cases verdict with
  | error e => cases hrun
  | ok u => exact hrun

variable {strict lax : Env} (h : strict.Relaxed lax)
include h

theorem numberRule_relaxed : strict.numberRule.Relaxed lax.numberRule where
  maxLength := by rw [Env.numberRule, Env.numberRule, h.limits]
  minimal := h.rules .minimalData

/-! ## Lock times -/

theorem readOperand_of_relaxed {stack : Stack} {n : Nat}
    (hread : LockTime.readOperand strict stack = .ok n) :
    LockTime.readOperand lax stack = .ok n := by
  have hrule : NumberRule.Relaxed ⟨LockTime.operandLength, strict.has .minimalData⟩
      ⟨LockTime.operandLength, lax.has .minimalData⟩ := ⟨rfl, h.rules .minimalData⟩
  cases stack with
  | nil => cases hread
  | cons item below =>
      rw [LockTime.readOperand] at hread ⊢
      cases hnumber : Number.decode ⟨LockTime.operandLength, strict.has .minimalData⟩ item with
      | error e =>
          rw [hnumber] at hread
          cases hread
      | ok value =>
          rw [hnumber] at hread
          rw [Number.decode_of_relaxed hrule hnumber]
          exact hread

theorem readOperand_bind_of_relaxed {stack : Stack} {next : Nat → Except Failure Unit}
    (hcheck : (LockTime.readOperand strict stack >>= next) = .ok ()) :
    (LockTime.readOperand lax stack >>= next) = .ok () := by
  cases hread : LockTime.readOperand strict stack with
  | error e =>
      rw [hread] at hcheck
      cases hcheck
  | ok required =>
      rw [hread] at hcheck
      rw [readOperand_of_relaxed h hread]
      exact hcheck

theorem checkLockTime_of_relaxed {stack : Stack}
    (hcheck : LockTime.checkLockTime strict stack = .ok ()) :
    LockTime.checkLockTime lax stack = .ok () := by
  rw [LockTime.checkLockTime, h.context, h.inputIndex]
  exact readOperand_bind_of_relaxed h hcheck

theorem checkSequence_of_relaxed {stack : Stack}
    (hcheck : LockTime.checkSequence strict stack = .ok ()) :
    LockTime.checkSequence lax stack = .ok () := by
  rw [LockTime.checkSequence, h.context, h.inputIndex]
  exact readOperand_bind_of_relaxed h hcheck

/-! ## Opcodes without a meaning -/

theorem upgradable_eq_pure (op : Opcode) : upgradable lax op = pure () := by
  rw [upgradable, h.notDiscouraged]
  rfl

theorem upgradable_within (op : Opcode) : Within (upgradable strict op) (upgradable lax op) :=
  failIf_within (fun _ => h.notDiscouraged) _

/-- An opcode that got a meaning: where it has none yet, it does nothing. -/
theorem lockOpcode_within {rule : Flags} {op : Opcode} {check : Env → Stack → Except Failure Unit}
    (hcheck : ∀ stack, check strict stack = .ok () → check lax stack = .ok ()) :
    Within (if strict.has rule then do test (check strict (← get).data) else upgradable strict op)
      (if lax.has rule then do test (check lax (← get).data) else upgradable lax op) := by
  cases hlax : lax.has rule with
  | true =>
      rw [h.rules rule hlax]
      exact Within.get_bind fun s => test_within (hcheck s.data)
  | false =>
      cases strict.has rule with
      | true =>
          rw [upgradable_eq_pure h]
          exact fun s u t hrun => test_within_pure _ s u t hrun
      | false => exact upgradable_within h op

/-! ## Signature checks -/

theorem verifySignature_eq (code : Script) (signature publicKey : Bytes) :
    verifySignature lax code signature publicKey =
      verifySignature strict code signature publicKey := by
  rw [verifySignature, verifySignature, h.forkId, h.context, h.inputIndex]

theorem signedCode_eq (part : List Instruction) (signatures : List Bytes) :
    signedCode lax part signatures = signedCode strict part signatures := by
  rw [signedCode, signedCode, h.forkId]

theorem matchKeys_eq (code : Script) (keys signatures : List Bytes) :
    matchKeys lax code keys signatures = matchKeys strict code keys signatures := by
  induction keys generalizing signatures with
  | nil => cases signatures <;> rfl
  | cons key keys ih =>
      cases signatures with
      | nil => rfl
      | cons signature signatures =>
          rw [matchKeys, matchKeys, verifySignature_eq h]
          congr 1
          funext valid
          dsimp only
          rw [ih]

theorem checkSig_eq (script : List Instruction) : checkSig lax script = checkSig strict script := by
  simp only [checkSig, verifySignature_eq h, signedCode_eq h]

theorem popCount_within (limit : Nat) (failure : Int → Failure) :
    Within (popCount strict limit failure) (popCount lax limit failure) :=
  (onData_within (Stack.popNumber_within (numberRule_relaxed h))).bind fun _ => .refl _

theorem checkMultiSig_within (script : List Instruction) :
    Within (checkMultiSig strict script) (checkMultiSig lax script) := by
  unfold checkMultiSig
  rw [h.limits]
  refine (popCount_within h _ _).bind fun keyCount => ?_
  refine (Within.refl _).bind fun _ => (Within.refl _).bind fun keys => ?_
  refine (popCount_within h _ _).bind fun signatureCount => ?_
  refine (Within.refl _).bind fun signatures => (Within.refl _).bind fun dummy => ?_
  refine Within.bind (failIf_within ?_ _) fun _ => Within.get_bind fun s => ?_
  · intro hstrict
    cases hlax : lax.has .strictMultisig with
    | true => rwa [h.rules _ hlax] at hstrict
    | false => rfl
  · dsimp only
    rw [signedCode_eq h, matchKeys_eq h]
    exact .refl _

/-! ## Instructions -/

theorem perform_within (script : List Instruction) (offset : Nat) (i : Instruction) :
    Within (perform strict script offset i) (perform lax script offset i) := by
  have hrule := numberRule_relaxed h
  unfold perform
  cases i.op.action with
  | stack op => exact onData_within (Stack.run_within hrule op)
  | stackVerify op kind => exact (onData_within (Stack.run_within hrule op)).bind fun _ => .refl _
  | upgradable => exact upgradable_within h i.op
  | checkLockTime => exact lockOpcode_within h fun _ => checkLockTime_of_relaxed h
  | checkSequence => exact lockOpcode_within h fun _ => checkSequence_of_relaxed h
  | checkSig verify =>
      dsimp only
      rw [checkSig_eq h]
      exact .refl _
  | checkMultiSig verify => exact (checkMultiSig_within h script).bind fun _ => .refl _
  | _ => exact .refl _

theorem precheck_within (i : Instruction) : Within (precheck strict i) (precheck lax i) := by
  rw [precheck, precheck, h.limits]
  exact .refl _

theorem performOpen_within (script : List Instruction) (offset : Nat) (i : Instruction) :
    Within (performOpen strict script offset i) (performOpen lax script offset i) := by
  have hminimal : (strict.has .minimalData && i.op.isPush && !i.isMinimalPush) = false →
      (lax.has .minimalData && i.op.isPush && !i.isMinimalPush) = false := by
    intro hstrict
    cases hlax : lax.has .minimalData with
    | true => rwa [h.rules _ hlax] at hstrict
    | false => rfl
  have hperform := perform_within h script offset i
  refine Within.get_bind fun s => Within.ite ?_ (Within.ite hperform (.refl _))
  exact (failIf_within hminimal _).bind fun _ => hperform

theorem executeBounded_within (script : List Instruction) (offset : Nat) (i : Instruction) :
    Within (executeBounded strict script offset i) (executeBounded lax script offset i) := by
  have hexecute : Within (execute strict script offset i) (execute lax script offset i) := by
    rw [execute_eq, execute_eq]
    exact (precheck_within h i).bind fun _ => performOpen_within h script offset i
  refine hexecute.bind fun _ => ?_
  rw [h.limits]
  exact .refl _

/-! ## Scripts -/

theorem runFrom_within (script : List Instruction) (offset : Nat) (rest : List Instruction) :
    Within (runFrom strict script offset rest) (runFrom lax script offset rest) := by
  induction rest generalizing offset with
  | nil => exact .refl _
  | cons i rest ih => exact (executeBounded_within h script offset i).bind fun _ => ih (offset + 1)

theorem runScript_within (script : List Instruction) :
    Within (runScript strict script) (runScript lax script) :=
  (runFrom_within h script 0 script).bind fun _ => .refl _

theorem checkResult_of_relaxed {last : Bool} {stack : Stack}
    (hresult : Machine.checkResult strict last stack = .ok ()) :
    Machine.checkResult lax last stack = .ok () := by
  cases stack with
  | nil => cases hresult
  | cons item below =>
      rw [Machine.checkResult] at hresult ⊢
      split_ifs at hresult with hextra htrue
      have hlax : ¬(last && lax.has .cleanStack && !below.isEmpty) = true := by
        intro hall
        simp only [Bool.and_eq_true] at hall
        exact hextra (by rw [hall.1.1, h.rules _ hall.1.2, hall.2]; rfl)
      rw [if_neg hlax, if_pos htrue]

theorem takeRedeem_within (unlocked : Stack) :
    Within (takeRedeem strict unlocked) (takeRedeem lax unlocked) :=
  Within.get_bind fun _ => (test_within (checkResult_of_relaxed h)).bind fun _ => .refl _

theorem runLast_within (script : List Instruction) :
    Within (runLast strict script) (runLast lax script) :=
  (runScript_within h script).bind fun _ =>
    Within.get_bind fun _ => test_within (checkResult_of_relaxed h)

theorem runLocking_within (locking : List Instruction) (redeems : Bool) (unlocked : Stack) :
    Within (runLocking strict locking redeems unlocked)
      (runLocking lax locking redeems unlocked) := by
  cases redeems with
  | true =>
      refine (runScript_within h locking).bind fun _ => ?_
      exact (takeRedeem_within h unlocked).bind fun third => runLast_within h third
  | false => exact runLast_within h locking

theorem runSpend_within (unlocking locking : List Instruction) (redeems : Bool) :
    Within (runSpend strict unlocking locking redeems) (runSpend lax unlocking locking redeems) :=
  (runScript_within h unlocking).bind fun _ =>
    Within.get_bind fun s => runLocking_within h locking redeems s.data

omit h in
theorem checkResult_of_takeRedeem {unlocked : Stack} {s t : State} {third : List Instruction}
    (htake : takeRedeem strict unlocked s = .ok third t) :
    Machine.checkResult strict false s.data = .ok () := by
  rw [takeRedeem_run] at htake
  cases hresult : Machine.checkResult strict false s.data with
  | error e =>
      rw [hresult] at htake
      cases htake
  | ok u => rfl

omit h in
theorem checkResult_of_not_cleanStack (hclean : lax.has .cleanStack = false) (stack : Stack) :
    Machine.checkResult lax true stack = Machine.checkResult lax false stack := by
  cases stack with
  | nil => rfl
  | cons item below => rw [Machine.checkResult, Machine.checkResult, hclean, Bool.and_false]; rfl

/-- Where no redeem script is called for, the spend ends at the true item that the redeem script
would have started from. -/
theorem runSpend_of_redeem (hclean : lax.has .cleanStack = false)
    {unlocking locking : List Instruction} {s t : State}
    (hrun : runSpend strict unlocking locking true s = .ok () t) :
    ∃ u, runSpend lax unlocking locking false s = .ok () u := by
  obtain ⟨_, u, hunlocking, hrun⟩ := bind_eq_ok.mp hrun
  rw [get_bind_run] at hrun
  obtain ⟨_, v, hlocking, hrun⟩ := bind_eq_ok.mp hrun
  obtain ⟨third, w, htake, -⟩ := bind_eq_ok.mp hrun
  have hresult : Machine.checkResult lax true v.data = .ok () := by
    rw [checkResult_of_not_cleanStack hclean]
    exact checkResult_of_relaxed h (checkResult_of_takeRedeem htake)
  have hlast : runLast lax locking u = .ok () v :=
    Machine.runLast_eq_ok_iff.mpr ⟨runScript_within h locking _ _ _ hlocking, hresult⟩
  exact ⟨v, bind_eq_ok.mpr ⟨(), u, runScript_within h unlocking _ _ _ hunlocking, hlast⟩⟩

end Exec

/-! ## Spends -/

namespace Machine

open Exec

theorem callsForRedeem_of_relaxed {strict lax : Env} (h : strict.Relaxed lax) {locking : Script}
    (hcalls : callsForRedeem lax locking = true) : callsForRedeem strict locking = true := by
  rw [callsForRedeem, Bool.and_eq_true] at *
  exact ⟨h.rules _ hcalls.1, hcalls.2⟩

theorem Startable.of_relaxed {strict lax : Env} (h : strict.Relaxed lax)
    (hclean : lax.has .cleanStack = true → lax.has .payToScriptHash = true)
    {unlocking locking : Script} {first second : List Instruction}
    (hstart : Startable strict unlocking locking first second) :
    Startable lax unlocking locking first second where
  flags := hclean
  unlockingSize := h.limits ▸ hstart.unlockingSize
  lockingSize := h.limits ▸ hstart.lockingSize
  nonempty := hstart.nonempty
  unlockingParses := hstart.unlockingParses
  lockingParses := hstart.lockingParses
  pushOnly hpush := hstart.pushOnly (h.rules _ hpush)
  redeemPushOnly hredeem := hstart.redeemPushOnly (callsForRedeem_of_relaxed h hredeem)

/-- Where only the added rules call for a redeem script, the others do not ask for a clean stack. -/
theorem cleanStack_of_callsForRedeem {before after : Flags} (hfork : before.SoftFork after)
    {env : Env} {locking : Script} (hbefore : callsForRedeem (env.under before) locking = false)
    (hafter : callsForRedeem (env.under after) locking = true) :
    (env.under before).has .cleanStack = false := by
  rw [callsForRedeem, Bool.and_eq_true] at hafter
  rw [callsForRedeem, hafter.2, Bool.and_true] at hbefore
  rw [Bool.eq_false_iff]
  intro hclean
  exact Bool.eq_false_iff.mp hbefore (hfork.cleanStack hclean)

/-- Rules that are added by a soft fork only turn good spends into bad ones. -/
theorem result_of_softFork {before after : Flags} (hfork : before.SoftFork after) (env : Env)
    (unlocking locking : Script)
    (hresult : (evaluate (env.under after) unlocking locking).result = .ok ()) :
    (evaluate (env.under before) unlocking locking).result = .ok () := by
  have h := hfork.relaxed env
  obtain ⟨first, second, t, hstart, hrun⟩ := result_eq_ok_iff_runSpend.mp hresult
  have hstartLax := hstart.of_relaxed h hfork.cleanStack
  suffices hlax : ∃ u, runSpend (env.under before) first second
      (callsForRedeem (env.under before) locking) {} = .ok () u by
    obtain ⟨u, hu⟩ := hlax
    exact result_eq_ok_iff_runSpend.mpr ⟨first, second, u, hstartLax, hu⟩
  cases hbefore : callsForRedeem (env.under before) locking with
  | true =>
      rw [callsForRedeem_of_relaxed h hbefore] at hrun
      exact ⟨t, runSpend_within h first second true _ _ _ hrun⟩
  | false =>
      cases hafter : callsForRedeem (env.under after) locking with
      | true =>
          rw [hafter] at hrun
          exact runSpend_of_redeem h (cleanStack_of_callsForRedeem hfork hbefore hafter) hrun
      | false =>
          rw [hafter] at hrun
          exact ⟨t, runSpend_within h first second false _ _ _ hrun⟩

def lockedEnv : Env :=
  ⟨.none, {}, some ⟨100, 2, fun _ => 0, fun _ _ => none⟩, 0⟩

def lockTimeFork : Flags :=
  ((Flags.payToScriptHash.union .checkLockTime).union .checkSequence).union .minimalData

theorem result_of_softFork_lockTime :
    Flags.payToScriptHash.SoftFork lockTimeFork ∧
    (evaluate (lockedEnv.under lockTimeFork) ⟨[0x01, 0x63]⟩ ⟨[0xb1]⟩).result = .ok () ∧
    (evaluate (lockedEnv.under .payToScriptHash) ⟨[0x01, 0x63]⟩ ⟨[0xb1]⟩).result = .ok () := by
  have hfork : Flags.payToScriptHash.SoftFork lockTimeFork :=
    ⟨by decide, by decide, by decide, by decide⟩
  have hafter : (evaluate (lockedEnv.under lockTimeFork) ⟨[0x01, 0x63]⟩ ⟨[0xb1]⟩).result =
      .ok () := by
    decide +kernel
  exact ⟨hfork, hafter, result_of_softFork hfork lockedEnv _ _ hafter⟩

end Machine

end UtxoSpend
