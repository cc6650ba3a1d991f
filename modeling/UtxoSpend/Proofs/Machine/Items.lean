import Mathlib
import UtxoSpend.Proofs.Effect
import UtxoSpend.Proofs.Machine.Failures
import UtxoSpend.Proofs.Machine.SignMagnitude

/-!
# What operations put on a stack

Whatever a stack operation puts is an item that was there, a number, a truth value, a hash or the
constant of its opcode.  Main statement: a stack operation keeps every property of items that the
latter have, and what it fails with is about an instruction; one such property is to be within a
bound that is not below the length of the longest hash.
-/

namespace UtxoSpend

open Effect

/-! ## Items that were not there -/

def StackOp.constant : StackOp → Bytes
  | push item => item
  | _ => []

def Action.constant : Action → Bytes
  | .stack op => op.constant
  | .stackVerify op _ => op.constant
  | _ => []

theorem length_constant_le (op : Opcode) : op.action.constant.length ≤ 1 :=
  forall_byte (p := fun op => (Opcode.action op).constant.length ≤ 1) (by decide +kernel) op

structure HoldsOfMade (Q : Bytes → Prop) : Prop where
  number : ∀ n, Q (Number.encode n)
  truth : ∀ b, Q (Truth.encode b)
  hash : ∀ (op : HashOp) bs, Q (op.apply bs)
  constant : ∀ op : Opcode, Q op.action.constant

theorem HoldsOfMade.any : HoldsOfMade Any :=
  ⟨fun _ => trivial, fun _ => trivial, fun _ _ => trivial, fun _ => trivial⟩

/-- The length of the longest hash, and more than any number has. -/
def longestHash : Nat := 32

theorem Number.length_encode_le (n : Int64) : (Number.encode n).length ≤ longestHash := by
  have hlow := n.le_toInt
  have hhigh := n.toInt_lt
  rw [length_encode_le_iff]
  calc n.toInt.natAbs ≤ 2 ^ 63 := by omega
    _ < signWeight longestHash := by decide

theorem Truth.length_encode_le (b : Bool) : (Truth.encode b).length ≤ longestHash := by
  cases b <;> decide

theorem HashOp.length_apply_le (op : HashOp) (bs : Bytes) :
    (op.apply bs).length ≤ longestHash := by
  cases op <;> simp [apply, longestHash]

theorem HoldsOfMade.length_le {limit : Nat} (h : longestHash ≤ limit) :
    HoldsOfMade fun item => item.length ≤ limit where
  number n := (Number.length_encode_le n).trans h
  truth b := (Truth.length_encode_le b).trans h
  hash op bs := (op.length_apply_le bs).trans h
  constant op := (length_constant_le op).trans (le_trans (by decide) h)

/-! ## Stack operations -/

namespace Stack

def All (Q : Bytes → Prop) (s : Stack) : Prop := ∀ item ∈ s, Q item

abbrev Small (limit : Nat) (s : Stack) : Prop := s.All fun item => item.length ≤ limit

/-- From items with the property the operation leaves only such items, and it fails only with
failures of instructions. -/
abbrev Yields (Q : Bytes → Prop) {α : Type} (R : α → Prop) (op : StackM α) : Prop :=
  Keeps (All Q) (fun e => e.isOfInstruction = true) R op

variable {Q : Bytes → Prop}

theorem push_yields {item : Bytes} (h : Q item) : Yields Q Any (push item) where
  of_ok hs hrun := by
    cases hrun
    exact ⟨List.forall_mem_cons.mpr ⟨h, hs⟩, trivial⟩
  of_error _ hrun := by cases hrun

theorem pop_yields : Yields Q Q pop where
  of_ok {s} _ _ hs hrun := by
    cases s with
    | nil => cases hrun
    | cons item below =>
        cases hrun
        exact (List.forall_mem_cons.mp hs).symm
  of_error {s} _ _ _ hrun := by
    cases s with
    | nil =>
        cases hrun
        rfl
    | cons item below => cases hrun

theorem popNumber_yields (rule : NumberRule) : Yields Q Any (popNumber rule) := by
  refine pop_yields.bind fun item _ => ?_
  cases h : Number.decode rule item with
  | ok n => exact .pure trivial
  | error e => exact .throw (Number.decode_refusesInside rule item e h)

theorem popBool_yields : Yields Q Any popBool := pop_yields.bind fun _ _ => .pure trivial

theorem popMany_yields (count : Nat) : Yields Q Any (popMany count) := by
  induction count with
  | zero => exact .pure trivial
  | succ count ih => exact pop_yields.bind fun _ _ => ih.bind fun _ _ => .pure trivial

theorem peek_yields (n : Nat) : Yields Q Q (peek n) where
  of_ok hs hrun := by
    rw [peek] at hrun
    split at hrun
    · rename_i hget
      cases hrun
      exact ⟨hs, hs _ (List.mem_of_getElem? hget)⟩
    · cases hrun
  of_error _ hrun := by
    rw [peek] at hrun
    split at hrun
    · cases hrun
    · cases hrun
      rfl

theorem remove_yields (n : Nat) : Yields Q Q (remove n) where
  of_ok hs hrun := by
    rw [remove] at hrun
    split at hrun
    · rename_i hget
      cases hrun
      exact ⟨fun other hother => hs other (List.mem_of_mem_eraseIdx hother),
        hs _ (List.mem_of_getElem? hget)⟩
    · cases hrun
  of_error _ hrun := by
    rw [remove] at hrun
    split at hrun
    · cases hrun
    · cases hrun
      rfl

theorem pick_yields (n : Nat) : Yields Q Any (pick n) :=
  (peek_yields n).bind fun _ => push_yields

theorem roll_yields (n : Nat) : Yields Q Any (roll n) :=
  (remove_yields n).bind fun _ => push_yields

theorem times_yields {op : StackM Unit} (h : Yields Q Any op) (count : Nat) :
    Yields Q Any (times op count) := by
  induction count with
  | zero => exact .pure trivial
  | succ count ih => exact h.bind fun _ _ => ih

theorem drop_yields (count : Nat) : Yields Q Any (drop count) where
  of_ok hs hrun := by
    rw [drop] at hrun
    split_ifs at hrun
    cases hrun
    exact ⟨fun item hitem => hs item (List.mem_of_mem_drop hitem), trivial⟩
  of_error _ hrun := by
    rw [drop] at hrun
    split_ifs at hrun
    cases hrun
    rfl

theorem tuck_yields : Yields Q Any tuck := by
  refine pop_yields.bind fun top htop => pop_yields.bind fun second hsecond => ?_
  refine (push_yields htop).bind fun _ _ => (push_yields hsecond).bind fun _ _ => ?_
  exact push_yields htop

theorem popPosition_yields (rule : NumberRule) : Yields Q Any (popPosition rule) :=
  (popNumber_yields rule).bind fun _ _ => Keeps.get.bind fun _ _ =>
    .ite (.throw rfl) (.pure trivial)

theorem run_yields (hQ : HoldsOfMade Q) (rule : NumberRule) {op : StackOp} (h : Q op.constant) :
    Yields Q Any (op.run rule) := by
  have hnumber : Yields Q Any (popNumber rule) := popNumber_yields rule
  have hposition : Yields Q Any (popPosition rule) := popPosition_yields rule
  have hpushNumber : ∀ n, Yields Q Any (pushNumber n) := fun n => push_yields (hQ.number n)
  have hpushBool : ∀ b, Yields Q Any (pushBool b) := fun b => push_yields (hQ.truth b)
  cases op with
  | push item => exact push_yields h
  | drop count => exact drop_yields count
  | dup count => exact times_yields (pick_yields _) count
  | copySecond count => exact times_yields (pick_yields _) count
  | rot count => exact times_yields (roll_yields _) count
  | swap count => exact times_yields (roll_yields _) count
  | nip => exact (remove_yields 1).bind fun _ _ => .pure trivial
  | tuck => exact tuck_yields
  | ifDup => exact (peek_yields 0).bind fun _ hitem => .ite (push_yields hitem) (.pure trivial)
  | depth => exact Keeps.get.bind fun _ _ => hpushNumber _
  | pick => exact hposition.bind fun n _ => pick_yields n
  | roll => exact hposition.bind fun n _ => roll_yields n
  | size => exact (peek_yields 0).bind fun _ _ => hpushNumber _
  | equal => exact pop_yields.bind fun _ _ => pop_yields.bind fun _ _ => hpushBool _
  | unary op => exact hnumber.bind fun _ _ => hpushNumber _
  | binary op => exact hnumber.bind fun _ _ => hnumber.bind fun _ _ => hpushNumber _
  | within =>
      exact hnumber.bind fun _ _ => hnumber.bind fun _ _ => hnumber.bind fun _ _ => hpushBool _
  | hash op => exact pop_yields.bind fun item _ => push_yields (hQ.hash op item)

end Stack

end UtxoSpend
