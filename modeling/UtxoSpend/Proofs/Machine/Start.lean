import Mathlib
import UtxoSpend.Machine.Machine

/-!
# When a spend can start

Both scripts must be small enough and parse, and the unlocking script may have to push only.
Main statement: a machine is started exactly under these conditions, and is then at its first
instruction.
-/

namespace UtxoSpend.Machine

def callsForRedeem (env : Env) (locking : Script) : Bool :=
  env.has .payToScriptHash && locking.isPayToScriptHash

structure Startable (env : Env) (unlocking locking : Script) (first second : List Instruction) :
    Prop where
  flags : env.has .cleanStack = true → env.has .payToScriptHash = true
  unlockingSize : unlocking.size ≤ env.limits.scriptSize
  lockingSize : locking.size ≤ env.limits.scriptSize
  nonempty : ¬(unlocking.isEmpty = true ∧ locking.isEmpty = true)
  unlockingParses : unlocking.instructions = .ok first
  lockingParses : locking.instructions = .ok second
  pushOnly : env.has .pushOnlyUnlocking = true → Instruction.isPushOnly first = true
  redeemPushOnly : callsForRedeem env locking = true → Instruction.isPushOnly first = true

def initial (env : Env) (unlocking locking : Script) (first second : List Instruction) :
    Machine where
  scripts := [first, second]
  scriptIndex := if unlocking.isEmpty then 1 else 0
  offset := 0
  redeems := callsForRedeem env locking
  unlocked := []
  state := {}

/-- The checks in their order, the first failure winning. -/
theorem start_eq (env : Env) (unlocking locking : Script) :
    start env unlocking locking =
      if env.has .cleanStack && !env.has .payToScriptHash then .error .cleanStackAlone
      else if env.limits.scriptSize < unlocking.size then
        .error (.scriptTooBig .unlocking unlocking.size env.limits.scriptSize)
      else if env.limits.scriptSize < locking.size then
        .error (.scriptTooBig .locking locking.size env.limits.scriptSize)
      else if unlocking.isEmpty && locking.isEmpty then .error .falseResult
      else
        match unlocking.instructions, locking.instructions with
        | .error e, _ => .error (.malformed e)
        | .ok _, .error e => .error (.malformed e)
        | .ok first, .ok second =>
          if env.has .pushOnlyUnlocking && !Instruction.isPushOnly first then
            .error .unlockingNotPushOnly
          else if callsForRedeem env locking && !Instruction.isPushOnly first then
            .error .redeemNotPushOnly
          else .ok (initial env unlocking locking first second) := by
  simp only [start, bind, Except.bind, throw, throwThe, MonadExceptOf.throw]
  cases unlocking.instructions with
  | error e => rfl
  | ok first =>
      cases locking.instructions with
      | error e => rfl
      | ok second => rfl

theorem start_eq_ok_iff {env : Env} {unlocking locking : Script} {m : Machine} :
    start env unlocking locking = .ok m ↔
      ∃ first second, Startable env unlocking locking first second ∧
        m = initial env unlocking locking first second := by
  rw [start_eq]
  constructor
  · intro h
    split_ifs at h with hflags hunlockingSize hlockingSize hempty
    split at h
    · cases h
    · cases h
    · rename_i first second hunlocking hlocking
      split_ifs at h with hpush hredeem
      cases h
      refine ⟨first, second, ?_, rfl⟩
      exact {
        flags := by simpa using hflags
        unlockingSize := Nat.le_of_not_lt hunlockingSize
        lockingSize := Nat.le_of_not_lt hlockingSize
        nonempty := by simpa using hempty
        unlockingParses := hunlocking
        lockingParses := hlocking
        pushOnly := by simpa using hpush
        redeemPushOnly := by simpa using hredeem }
  · rintro ⟨first, second, h, rfl⟩
    have hflags := h.flags
    have hempty := h.nonempty
    have hpush := h.pushOnly
    have hredeem := h.redeemPushOnly
    rw [if_neg (by simpa using hflags), if_neg (Nat.not_lt.mpr h.unlockingSize),
      if_neg (Nat.not_lt.mpr h.lockingSize), if_neg (by simpa using hempty),
      h.unlockingParses, h.lockingParses]
    dsimp only
    rw [if_neg (by simpa using hpush), if_neg (by simpa using hredeem)]

end UtxoSpend.Machine
