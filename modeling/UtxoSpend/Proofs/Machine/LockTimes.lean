import Mathlib
import UtxoSpend.Proofs.Machine.NumberCodec
import UtxoSpend.Proofs.Machine.Operations

/-!
# What lock times demand

The lock-time opcodes look at the top item, the transaction and the input, and leave the state as it
is.  An operand can be larger than any lock time or sequence; of a sequence only some bits are
compared, and these bits are told by one comparison under a mask.  Main statement: the opcodes
succeed exactly if the transaction meets the demand of the top item.
-/

namespace UtxoSpend

open Effect

namespace LockTime

/-! ## Demands -/

/-- The item demands `n`: it has at most five bytes, the shortest form if the rules ask for it, and
denotes an integer that is not negative. -/
structure Demands (env : Env) (item : Bytes) (n : Nat) : Prop where
  length_le : item.length ≤ 5
  shortest : env.has .minimalData = true → Number.IsShortest item
  denotes : Number.signMagnitude item = n

/-- The lock time of the transaction applies to the input, is of the same kind as `n`, a height or a
time, and is not before it. -/
structure ReachedBy (env : Env) (tx : TxContext) (n : Nat) : Prop where
  le : n ≤ tx.lockTime.toNat
  same_kind : n < 500000000 ↔ tx.lockTime.toNat < 500000000
  not_final : tx.sequenceOf env.inputIndex ≠ 0xffffffff

/-- The sequence of the input is a relative lock time of the same kind as `n`, blocks or seconds,
and counts as much. -/
structure AgedBy (env : Env) (tx : TxContext) (n : Nat) : Prop where
  version : 2 ≤ tx.version
  enabled : (tx.sequenceOf env.inputIndex).toNat.testBit 31 = false
  same_kind : n.testBit 22 = (tx.sequenceOf env.inputIndex).toNat.testBit 22
  le : n % 2 ^ 16 ≤ (tx.sequenceOf env.inputIndex).toNat % 2 ^ 16

variable {env : Env} {tx : TxContext} {item : Bytes} {below : Stack} {n : Nat}

theorem readOperand_eq_ok_iff : readOperand env (item :: below) = .ok n ↔ Demands env item n := by
  rw [readOperand]
  constructor
  · intro h
    cases hdecode : Number.decode ⟨operandLength, env.has .minimalData⟩ item with
    | error e =>
        rw [hdecode] at h
        cases h
    | ok v =>
        obtain ⟨hlength, hshortest, rfl⟩ := Number.decode_eq_ok_iff.mp hdecode
        simp only [hdecode, Int64.lt_iff_toInt_lt, Int64.toInt_zero] at h
        have hvalue := Number.toInt_value (hlength.trans (show 5 ≤ 8 by decide))
        split_ifs at h with hnegative
        cases h
        exact ⟨hlength, hshortest, by omega⟩
  · rintro ⟨hlength, hshortest, hdenotes⟩
    have hvalue := Number.toInt_value (hlength.trans (show 5 ≤ 8 by decide))
    have hdecode : Number.decode ⟨operandLength, env.has .minimalData⟩ item =
        .ok (Number.value item) := Number.decode_eq_ok_iff.mpr ⟨hlength, hshortest, rfl⟩
    simp only [hdecode, Int64.lt_iff_toInt_lt, Int64.toInt_zero, hvalue, hdenotes]
    simp

theorem compare_eq_ok_iff {actual limit required : Nat} :
    compare actual limit required = .ok () ↔
      required ≤ actual ∧ (required < limit ↔ actual < limit) := by
  rw [compare]
  split_ifs with hkinds hshort
  · simp only [bne_iff_ne, ne_eq, decide_eq_decide] at hkinds
    simp [iff_comm, hkinds]
  · simp [Nat.not_le.mpr hshort]
  · simp only [bne_iff_ne, ne_eq, decide_eq_decide, not_not] at hkinds
    simp [Nat.le_of_not_lt hshort, hkinds]

/-- What the mask leaves of a number: its kind and its amount. -/
theorem and_comparedBits (n : Nat) :
    n &&& comparedBits = 2 ^ 22 * (n.testBit 22).toNat + n % 2 ^ 16 := by
  have hamount : n % 2 ^ 16 < 2 ^ 22 := lt_trans (Nat.mod_lt n (by decide)) (by decide)
  have htime : n &&& timeFlag = 2 ^ 22 * (n.testBit 22).toNat := by
    rw [show timeFlag = 2 ^ 22 by rfl, Nat.and_two_pow, Nat.mul_comm]
  have hlow : n &&& 0xffff = n % 2 ^ 16 := Nat.and_two_pow_sub_one_eq_mod n 16
  rw [comparedBits, Nat.and_or_distrib_left, htime, hlow, Nat.two_pow_add_eq_or_of_lt hamount]

theorem compare_and_comparedBits (actual required : Nat) :
    compare (actual &&& comparedBits) timeFlag (required &&& comparedBits) = .ok () ↔
      required.testBit 22 = actual.testBit 22 ∧ required % 2 ^ 16 ≤ actual % 2 ^ 16 := by
  have hactual : actual % 2 ^ 16 < 2 ^ 16 := Nat.mod_lt _ (by decide)
  have hrequired : required % 2 ^ 16 < 2 ^ 16 := Nat.mod_lt _ (by decide)
  rw [compare_eq_ok_iff, and_comparedBits, and_comparedBits, timeFlag]
  cases required.testBit 22 <;> cases actual.testBit 22 <;> simp <;> omega

/-! ## The two tests -/

theorem checkLockTime_eq_ok_iff (hcontext : env.context = some tx) :
    checkLockTime env (item :: below) = .ok () ↔ ∃ n, Demands env item n ∧ ReachedBy env tx n := by
  simp only [checkLockTime, except_bind_eq_ok, readOperand_eq_ok_iff, hcontext]
  apply exists_congr
  intro n
  apply and_congr_right
  intro _
  constructor
  · rintro ⟨_, hcompare, hfinal⟩
    obtain ⟨hle, hkind⟩ := compare_eq_ok_iff.mp hcompare
    split_ifs at hfinal with h
    exact ⟨hle, hkind, h⟩
  · rintro ⟨hle, hkind, hfinal⟩
    refine ⟨(), compare_eq_ok_iff.mpr ⟨hle, hkind⟩, ?_⟩
    exact if_neg hfinal

theorem checkSequence_eq_ok_iff (hcontext : env.context = some tx) :
    checkSequence env (item :: below) = .ok () ↔
      ∃ n, Demands env item n ∧ (n.testBit 31 = true ∨ AgedBy env tx n) := by
  simp only [checkSequence, except_bind_eq_ok, readOperand_eq_ok_iff, hcontext]
  apply exists_congr
  intro n
  apply and_congr_right
  intro _
  -- One case a guard, in the order of the opcode; past the last only the comparison decides.
  by_cases hfree : n.testBit disabledBit = true
  · rw [if_pos hfree]
    exact ⟨fun _ => .inl hfree, fun _ => rfl⟩
  · have hbound : ¬n.testBit 31 = true := hfree
    rw [if_neg hfree, or_iff_right hbound]
    by_cases hversion : tx.version < 2
    · rw [if_pos hversion]
      constructor
      · intro h
        cases h
      · intro h
        exact absurd h.version (UInt32.not_le.mpr hversion)
    · rw [if_neg hversion]
      by_cases hdisabled : (tx.sequenceOf env.inputIndex).toNat.testBit disabledBit = true
      · rw [if_pos hdisabled]
        constructor
        · intro h
          cases h
        · intro h
          exact absurd hdisabled (Bool.eq_false_iff.mp h.enabled)
      · rw [if_neg hdisabled, compare_and_comparedBits]
        constructor
        · rintro ⟨hkind, hle⟩
          exact ⟨UInt32.not_lt.mp hversion, Bool.eq_false_iff.mpr hdisabled, hkind, hle⟩
        · intro h
          exact ⟨h.same_kind, h.le⟩

end LockTime

/-! ## The opcodes -/

namespace Exec

variable {env : Env} {script : List Instruction} {offset : Nat}

theorem test_eq_ok_iff {verdict : Except Failure Unit} {s t : State} :
    test verdict s = .ok () t ↔ verdict = .ok () ∧ t = s := by
  cases verdict with
  | error e => simp [test]
  | ok u =>
      constructor
      · intro h
        cases h
        exact ⟨rfl, rfl⟩
      · rintro ⟨-, rfl⟩
        rfl

theorem left_test (verdict : Except Failure Unit) (s : State) : left (test verdict s) = s := by
  cases verdict with
  | error e => rfl
  | ok u => rfl

def verdictUnder (env : Env) (rule : Flags) (op : Opcode) (check : Stack → Except Failure Unit)
    (data : Stack) : Except Failure Unit :=
  if env.has rule then check data
  else if env.has .discourageUpgradable then .error (.discouraged op)
  else .ok ()

theorem checked_run (rule : Flags) (op : Opcode) (check : Stack → Except Failure Unit) (s : State) :
    (if env.has rule then do test (check (← get).data) else upgradable env op : Exec Unit) s =
      test (verdictUnder env rule op check s.data) s := by
  rw [verdictUnder, upgradable]
  cases env.has rule with
  | true => rfl
  | false => cases env.has .discourageUpgradable <;> rfl

theorem perform_checkLockTime (data : Bytes) (s : State) :
    perform env script offset ⟨0xb1, data⟩ s =
      test (verdictUnder env .checkLockTime 0xb1 (LockTime.checkLockTime env) s.data) s :=
  checked_run .checkLockTime 0xb1 (LockTime.checkLockTime env) s

theorem perform_checkSequence (data : Bytes) (s : State) :
    perform env script offset ⟨0xb2, data⟩ s =
      test (verdictUnder env .checkSequence 0xb2 (LockTime.checkSequence env) s.data) s :=
  checked_run .checkSequence 0xb2 (LockTime.checkSequence env) s

/-- In the state `s` the opcode leaves everything as it is.  Where its rule is set, it succeeds
exactly if `met` holds; elsewhere it does nothing, unless such opcodes are discouraged. -/
structure OnlyChecks (env : Env) (op : Opcode) (rule : Flags) (s : State) (met : Prop) : Prop where
  left_eq : ∀ script offset data, left (perform env script offset ⟨op, data⟩ s) = s
  succeeds_iff : env.has rule = true → ∀ script offset data,
    (∃ t, perform env script offset ⟨op, data⟩ s = .ok () t) ↔ met
  inactive : env.has rule = false → ∀ script offset data,
    perform env script offset ⟨op, data⟩ s =
      if env.has .discourageUpgradable then .error (.discouraged op) s else .ok () s

theorem OnlyChecks.of_run {op : Opcode} {rule : Flags} {check : Stack → Except Failure Unit}
    {s : State} {met : Prop} (hrun : ∀ script offset data,
      perform env script offset ⟨op, data⟩ s = test (verdictUnder env rule op check s.data) s)
    (hmet : check s.data = .ok () ↔ met) : OnlyChecks env op rule s met := by
  constructor
  case left_eq =>
    intro script offset data
    rw [hrun, left_test]
  case succeeds_iff =>
    intro hrule script offset data
    rw [hrun, verdictUnder, if_pos hrule, ← hmet]
    simp only [test_eq_ok_iff, exists_and_left, exists_eq, and_true]
  case inactive =>
    intro hrule script offset data
    rw [hrun, verdictUnder, hrule]
    cases env.has .discourageUpgradable <;> rfl

/-- The two lock-time opcodes check the demand of the top item against the transaction and its
input, and consume nothing. -/
theorem lockTimes_checked (env : Env) (tx : TxContext) (s : State) (item : Bytes) (below : Stack)
    (hcontext : env.context = some tx) (hdata : s.data = item :: below) :
    OnlyChecks env 0xb1 .checkLockTime s
        (∃ n, LockTime.Demands env item n ∧ LockTime.ReachedBy env tx n) ∧
      OnlyChecks env 0xb2 .checkSequence s
        (∃ n, LockTime.Demands env item n ∧
          (n.testBit 31 = true ∨ LockTime.AgedBy env tx n)) := by
  constructor
  · apply OnlyChecks.of_run fun _ _ data => perform_checkLockTime data s
    rw [hdata]
    exact LockTime.checkLockTime_eq_ok_iff hcontext
  · apply OnlyChecks.of_run fun _ _ data => perform_checkSequence data s
    rw [hdata]
    exact LockTime.checkSequence_eq_ok_iff hcontext

/-- Five bytes can demand more than any lock time, and of the same number only the lowest bits count
for a sequence. -/
theorem lockTimes_checked_fiveBytes :
    let tx : TxContext := ⟨0xffffffff, 2, fun _ => 5, fun _ _ => none⟩
    let rules := (Flags.checkLockTime.union .checkSequence).union .minimalData
    let env : Env := ⟨rules, {}, some tx, 0⟩
    let s : State := { data := [[3, 0, 0, 0, 1]] }
    (∀ t, perform env [] 0 ⟨0xb1, []⟩ s ≠ .ok () t) ∧
      ∃ t, perform env [] 0 ⟨0xb2, []⟩ s = .ok () t := by
  intro tx rules env s
  obtain ⟨hlockTime, hsequence⟩ := lockTimes_checked env tx s [3, 0, 0, 0, 1] [] rfl rfl
  have hdenotes : Number.signMagnitude [3, 0, 0, 0, 1] = (2 ^ 32 + 3 : Nat) := by decide
  constructor
  · intro t h
    obtain ⟨n, hdemands, hreached⟩ := (hlockTime.succeeds_iff (by decide) [] 0 []).mp ⟨t, h⟩
    have hn : n = 2 ^ 32 + 3 := by
      have hn := hdemands.denotes
      omega
    have hle : n ≤ 0xffffffff := hreached.le
    omega
  · apply (hsequence.succeeds_iff (by decide) [] 0 []).mpr
    have hshortest : Number.IsShortest [3, 0, 0, 0, 1] := (Number.isMinimal_iff _).mp (by decide)
    refine ⟨2 ^ 32 + 3, ⟨by decide, fun _ => hshortest, hdenotes⟩, .inr ?_⟩
    exact ⟨by decide, by decide, by decide, by decide⟩

end Exec

end UtxoSpend
