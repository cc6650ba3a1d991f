import Mathlib
import UtxoSpend.Proofs.Machine.Operations
import UtxoSpend.Proofs.Script.Push

/-!
# Scripts that only push

What such a script does is a function of its instructions and the rules alone: it neither asks for
signatures nor looks at the place of its instructions.  Main statement: its run is the pushes of its
items, one item an instruction, as long as the stack has room.
-/

namespace UtxoSpend.Exec

variable {env : Env} {is js : List Instruction}

def pushItems (env : Env) : List Instruction → StackM Unit
  | [] => pure ()
  | i :: is => fun data =>
    match pushedItem env i with
    | .error e => .error e data
    | .ok item => pushItems env is (item :: data)

theorem pushItems_append (data : Stack) :
    pushItems env (is ++ js) data =
      match pushItems env is data with
      | .error e left => .error e left
      | .ok () left => pushItems env js left := by
  induction is generalizing data with
  | nil => rfl
  | cons i is ih =>
      rw [List.cons_append, pushItems, pushItems]
      cases pushedItem env i with
      | error e => rfl
      | ok item => exact ih (item :: data)

theorem length_of_pushItems {data left : Stack} (h : pushItems env is data = .ok () left) :
    left.length = data.length + is.length := by
  induction is generalizing data with
  | nil =>
      cases h
      rfl
  | cons i is ih =>
      rw [pushItems] at h
      cases hitem : pushedItem env i with
      | error e => simp [hitem] at h
      | ok item =>
          rw [hitem] at h
          rw [ih h, List.length_cons, List.length_cons]
          omega

theorem runFrom_of_pushOnly {script : List Instruction} {offset : Nat} {s : State}
    (hpush : Instruction.isPushOnly is = true) (hbranches : s.branches = [])
    (hroom : s.depth + is.length ≤ env.limits.stackItems) :
    runFrom env script offset is s = onData (pushItems env is) s := by
  induction is generalizing offset s with
  | nil => rfl
  | cons i is ih =>
      simp only [Instruction.isPushOnly, List.all_cons, Bool.and_eq_true,
        decide_eq_true_eq] at hpush
      have hexecuting := isExecuting_of_branches hbranches
      rw [runFrom, onData_run, pushItems]
      -- No instruction takes an item away, so the room that is left at the end is there all along.
      cases hitem : pushedItem env i with
      | error e =>
          have hexec : executeBounded env script offset i s = .error e s := by
            rw [executeBounded_run, execute_of_pushOnly hpush.1 hexecuting, hitem]
          rw [Effect.bind_of_error hexec]
      | ok item =>
          have hdepth : State.depth { s with data := item :: s.data } = s.depth + 1 := by
            simp only [State.depth, List.length_cons]
            omega
          rw [List.length_cons] at hroom
          have hexec : executeBounded env script offset i s =
              .ok () { s with data := item :: s.data } := by
            rw [executeBounded_run, execute_of_pushOnly hpush.1 hexecuting, hitem]
            dsimp only
            rw [hdepth, if_neg (by omega)]
          have hrest : runFrom env script (offset + 1) is { s with data := item :: s.data } =
              onData (pushItems env is) { s with data := item :: s.data } :=
            ih hpush.2 hbranches (by omega)
          rw [Effect.bind_of_ok hexec, hrest, onData_run]

/-- As an unlocking script it leaves its items and nothing else, whether it fails or not. -/
theorem runScript_of_pushOnly (hpush : Instruction.isPushOnly is = true)
    (hroom : is.length ≤ env.limits.stackItems) :
    runScript env is {} =
      match pushItems env is [] with
      | .error e left => .error e { data := left }
      | .ok () left => .ok () { data := left } := by
  have hdepth : State.depth {} + is.length ≤ env.limits.stackItems := by
    rw [State.depth, List.length_nil, Nat.zero_add]
    omega
  rw [runScript_run, runFrom_of_pushOnly hpush rfl hdepth, onData_run]
  dsimp only
  cases pushItems env is [] with
  | error e left => rfl
  | ok u left => rfl

/-! ## The shortest push -/

theorem push_op_le_number16 (data : Bytes) : (Instruction.push data).op ≤ Opcode.number16 :=
  le_number16_of_isPush (Instruction.isPush_push data)

theorem isPushOnly_append_push (hpush : Instruction.isPushOnly is = true) (data : Bytes) :
    Instruction.isPushOnly (is ++ [.push data]) = true := by
  rw [Instruction.isPushOnly] at hpush ⊢
  rw [List.all_append, hpush]
  simpa using push_op_le_number16 data

theorem pushedItem_push {data : Bytes} (hsize : data.length ≤ env.limits.elementSize) :
    pushedItem env (.push data) = .ok data ∨
      ∃ e b, pushedItem env (.push data) = .error e ∧ data = [b] ∧
        (1 ≤ b ∧ b ≤ 16 ∨ b = 0x81) := by
  have hpush := Instruction.isPush_push data
  have haction : (Instruction.push data).op.action = .pushData := by
    rw [Opcode.action, if_pos (of_decide_eq_true hpush)]
  have hdata : (Instruction.push data).data = data := rfl
  rw [pushedItem, hdata, if_neg (Nat.not_lt.mpr hsize), hpush, haction]
  cases hwasteful : env.has .minimalData && true && !(Instruction.push data).isMinimalPush
  · left
    rfl
  · right
    have hminimal : (Instruction.push data).isMinimalPush ≠ true := by
      intro hminimal
      simp [hminimal] at hwasteful
    rcases Instruction.isMinimalPush_push data with h | ⟨b, hb, hnumber⟩
    · exact absurd h hminimal
    · exact ⟨_, b, rfl, hb, hnumber⟩

theorem pushedItem_push_of_two_le {data : Bytes} (hlong : 2 ≤ data.length)
    (hsize : data.length ≤ env.limits.elementSize) : pushedItem env (.push data) = .ok data := by
  rcases pushedItem_push hsize with h | ⟨_, b, -, rfl, -⟩
  · exact h
  · simp at hlong

end UtxoSpend.Exec
