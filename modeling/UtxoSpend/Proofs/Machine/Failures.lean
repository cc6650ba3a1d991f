import Mathlib
import UtxoSpend.Machine.LockTime

/-!
# Failures of instructions

Some failures are about an instruction and its operands, the others about the scripts and the
machine that runs them.  Main statements: whatever a number is refused with, or a test of a lock
time fails with, is of the first kind.
-/

namespace UtxoSpend

namespace Failure

def isOfInstruction : Failure → Bool
  | noContext _ | earlyReturn | elementTooBig _ _ | tooManyOperations _ | keyCount _ _
  | signatureCount _ _ | numberTooBig _ _ | paddedNumber _ | wastefulPush _ | notTrue _
  | disabled _ | reserved _ | stackIndex _ _ | noConditional _ | dummyNotEmpty _ | discouraged _
  | negativeLockTime _ | lockTime _ | noForkId _ => true
  | _ => false

end Failure

def RefusesInside {α : Type} (verdict : Except Failure α) : Prop :=
  ∀ e, verdict = .error e → e.isOfInstruction = true

namespace RefusesInside

variable {α β : Type}

theorem ok (a : α) : RefusesInside (.ok a) := fun _ h => by cases h

theorem error {e : Failure} (h : e.isOfInstruction = true) :
    RefusesInside (.error e : Except Failure α) := by
  rintro _ ⟨⟩
  exact h

theorem bind {x : Except Failure α} {f : α → Except Failure β} (h : RefusesInside x)
    (h' : ∀ a, RefusesInside (f a)) : RefusesInside (x >>= f) := by
  cases x with
  | error e => exact .error (h e rfl)
  | ok a => exact h' a

theorem ite {x y : Except Failure α} {p : Prop} [Decidable p] (h : RefusesInside x)
    (h' : RefusesInside y) : RefusesInside (if p then x else y) := by
  split_ifs
  · exact h
  · exact h'

end RefusesInside

theorem Number.decode_refusesInside (rule : NumberRule) (item : Bytes) :
    RefusesInside (decode rule item) := .ite (.error rfl) (.ite (.error rfl) (.ok _))

/-! ## Lock times -/

namespace LockTime

variable {env : Env} {stack : Stack}

theorem compare_refusesInside (actual limit required : Nat) :
    RefusesInside (compare actual limit required) := .ite (.error rfl) (.ite (.error rfl) (.ok ()))

theorem readOperand_refusesInside (env : Env) (stack : Stack) :
    RefusesInside (readOperand env stack) := by
  cases stack with
  | nil => exact .error rfl
  | cons item below =>
      rw [readOperand]
      cases h : Number.decode ⟨operandLength, env.has .minimalData⟩ item with
      | error e => exact .error (Number.decode_refusesInside _ item e h)
      | ok n => exact .ite (.error rfl) (.ok _)

theorem checkLockTime_refusesInside (env : Env) (stack : Stack) :
    RefusesInside (checkLockTime env stack) := by
  refine (readOperand_refusesInside env stack).bind fun required => ?_
  cases env.context with
  | none => exact .error rfl
  | some tx => exact (compare_refusesInside _ _ _).bind fun _ => .ite (.error rfl) (.ok ())

theorem checkSequence_refusesInside (env : Env) (stack : Stack) :
    RefusesInside (checkSequence env stack) := by
  refine (readOperand_refusesInside env stack).bind fun required => .ite (.ok ()) ?_
  cases env.context with
  | none => exact .error rfl
  | some tx =>
      dsimp only
      exact .ite (.error rfl) (.ite (.error rfl) (compare_refusesInside _ _ _))

end LockTime

end UtxoSpend
