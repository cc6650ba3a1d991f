import Mathlib
import UtxoSpend.Proofs.Machine.Phases

/-!
# Single instructions where all branches run

Where no conditional is open an instruction either only pushes, and then its item depends on
nothing but the instruction and the rules, or it is counted and then performed.  Pushes are treated
all at once; the stack operations and the signature check of the standard scripts follow.
-/

namespace UtxoSpend.Exec

variable {env : Env} {script : List Instruction} {offset : Nat} {i : Instruction} {s t : State}

theorem failIf_run (condition : Bool) (failure : Failure) (s : State) :
    failIf condition failure s = if condition then .error failure s else .ok () s := rfl

theorem failIf_bind_false {α : Type} {condition : Bool} (failure : Failure) (f : Unit → Exec α)
    (s : State) (h : condition = false) : (failIf condition failure >>= f) s = f () s := by
  subst h
  rfl

theorem failIf_bind_true {α : Type} {condition : Bool} (failure : Failure) (f : Unit → Exec α)
    (s : State) (h : condition = true) :
    (failIf condition failure >>= f) s = .error failure s := by
  subst h
  rfl

/-! ## Runs from instruction to instruction -/

theorem executeBounded_eq_ok_iff :
    executeBounded env script offset i s = .ok () t ↔
      execute env script offset i s = .ok () t ∧ t.depth ≤ env.limits.stackItems := by
  rw [executeBounded_run]
  cases execute env script offset i s with
  | error e u => simp
  | ok x u =>
      dsimp only
      split_ifs with hdepth
      · simp only [false_iff, not_and, EStateM.Result.ok.injEq, true_and]
        rintro rfl
        omega
      · simp only [EStateM.Result.ok.injEq, true_and]
        constructor
        · rintro rfl
          exact ⟨rfl, Nat.le_of_not_lt hdepth⟩
        · exact fun h => h.1

theorem runFrom_cons_eq_ok_iff {rest : List Instruction} :
    runFrom env script offset (i :: rest) s = .ok () t ↔
      ∃ u, execute env script offset i s = .ok () u ∧ u.depth ≤ env.limits.stackItems ∧
        runFrom env script (offset + 1) rest u = .ok () t := by
  rw [runFrom, Effect.bind_eq_ok]
  constructor
  · rintro ⟨_, u, hbounded, hrun⟩
    obtain ⟨hexec, hdepth⟩ := executeBounded_eq_ok_iff.mp hbounded
    exact ⟨u, hexec, hdepth, hrun⟩
  · rintro ⟨u, hexec, hdepth, hrun⟩
    exact ⟨(), u, executeBounded_eq_ok_iff.mpr ⟨hexec, hdepth⟩, hrun⟩

/-! ## Stages of an instruction -/

def precheck (env : Env) (i : Instruction) : Exec Unit := do
  failIf (env.limits.elementSize < i.data.length)
    (.elementTooBig i.data.length env.limits.elementSize)
  if i.op.isCounted then
    countOperations env.limits 1
  failIf i.op.isDisabled (.disabled i.op)

def performOpen (env : Env) (script : List Instruction) (offset : Nat) (i : Instruction) :
    Exec Unit := do
  if (← get).isExecuting then
    failIf (env.has .minimalData && i.op.isPush && !i.isMinimalPush) (.wastefulPush i.op)
    perform env script offset i
  else if i.op.isConditional then
    perform env script offset i

theorem execute_eq (env : Env) (script : List Instruction) (offset : Nat) (i : Instruction) :
    execute env script offset i = (do precheck env i; performOpen env script offset i) := by
  unfold execute precheck performOpen
  cases i.op.isCounted <;> simp

/-! ## Pushes -/

def pushedItem (env : Env) (i : Instruction) : Except Failure Bytes :=
  if env.limits.elementSize < i.data.length then
    .error (.elementTooBig i.data.length env.limits.elementSize)
  else if env.has .minimalData && i.op.isPush && !i.isMinimalPush then .error (.wastefulPush i.op)
  else
    match i.op.action with
    | .pushData => .ok i.data
    | .stack (.push item) => .ok item
    | _ => .error (.reserved i.op)

def pushes : Action → Bool
  | .pushData => true
  | .stack (.push _) => true
  | .reserved => true
  | _ => false

theorem pushes_of_le_number16 {op : Opcode} (h : op ≤ Opcode.number16) :
    pushes op.action = true := by
  -- There are 97 such opcodes, and no order of them explains their actions.
  have htable : ∀ n : Fin 97, pushes (Opcode.action (UInt8.ofNat n)) = true := by decide
  have hlt : op.toNat < 97 := Nat.lt_succ_of_le (UInt8.le_iff_toNat_le.mp h)
  have hop := htable ⟨op.toNat, hlt⟩
  rwa [show UInt8.ofNat (⟨op.toNat, hlt⟩ : Fin 97).val = op from UInt8.ofNat_toNat] at hop

theorem isDisabled_of_pushes {op : Opcode} (h : pushes op.action = true) :
    op.isDisabled = false := by
  rw [Opcode.isDisabled, beq_eq_false_iff_ne]
  intro hdisabled
  rw [hdisabled] at h
  cases h

theorem isExecuting_of_branches (h : s.branches = []) : s.isExecuting = true := by
  rw [State.isExecuting, h]
  rfl

/-- An opcode up to the number pushes pushes its item, whatever the script and the state are. -/
theorem execute_of_pushOnly (hop : i.op ≤ Opcode.number16) (hexecuting : s.isExecuting = true) :
    execute env script offset i s =
      match pushedItem env i with
      | .error e => .error e s
      | .ok item => .ok () { s with data := item :: s.data } := by
  have hpushes := pushes_of_le_number16 hop
  have hdisabled := isDisabled_of_pushes hpushes
  have hcounted : ¬i.op.isCounted = true := by
    simpa [Opcode.isCounted] using hop
  unfold execute pushedItem
  by_cases hsize : env.limits.elementSize < i.data.length
  · rw [failIf_bind_true _ _ _ (by simpa using hsize), if_pos hsize]
  · rw [failIf_bind_false _ _ _ (by simpa using hsize), if_neg hsize]
    dsimp only
    rw [if_neg hcounted, failIf_bind_false _ _ _ hdisabled, Effect.get_bind_run, if_pos hexecuting]
    cases hminimal : env.has .minimalData && i.op.isPush && !i.isMinimalPush
    · rw [failIf_bind_false _ _ _ rfl, if_neg (by decide), perform]
      cases haction : i.op.action with
      | pushData => rfl
      | stack op =>
          rw [haction] at hpushes
          cases op with
          | push item => rfl
          | _ => cases hpushes
      | reserved => rfl
      | _ =>
          rw [haction] at hpushes
          cases hpushes
    · rw [failIf_bind_true _ _ _ rfl, if_pos rfl]

theorem le_number16_of_isPush {op : Opcode} (h : op.isPush = true) : op ≤ Opcode.number16 :=
  UInt8.le_trans (of_decide_eq_true h) (show Opcode.pushData4 ≤ Opcode.number16 by decide)

theorem pushedItem_of_isPush (hpush : i.op.isPush = true) :
    pushedItem env i =
      if env.limits.elementSize < i.data.length then
        .error (.elementTooBig i.data.length env.limits.elementSize)
      else if env.has .minimalData && !i.isMinimalPush then .error (.wastefulPush i.op)
      else .ok i.data := by
  have haction : i.op.action = .pushData := if_pos (of_decide_eq_true hpush)
  rw [pushedItem, haction, hpush, Bool.and_true]

theorem execute_push (hpush : i.op.isPush = true) (hsize : i.data.length ≤ env.limits.elementSize)
    (hminimal : i.isMinimalPush = true) (hexecuting : s.isExecuting = true) :
    execute env script offset i s = .ok () { s with data := i.data :: s.data } := by
  have hitem : pushedItem env i = .ok i.data := by
    rw [pushedItem_of_isPush hpush, if_neg (Nat.not_lt.mpr hsize), hminimal, Bool.not_true,
      Bool.and_false, if_neg (by decide)]
  rw [execute_of_pushOnly (le_number16_of_isPush hpush) hexecuting, hitem]

/-! ## Operations -/

theorem lt_operations (hlimits : env.limits = {}) (n : Nat) (h : n < 201) :
    n < env.limits.operations := by
  rw [hlimits]
  exact h

theorem length_hash_le (hlimits : env.limits = {}) (hash : ByteVector 20) :
    hash.bytes.length ≤ env.limits.elementSize := by
  rw [hlimits, hash.length_eq]
  decide

theorem countOperations_run (limits : Limits) (count : Nat) (s : State) :
    countOperations limits count s =
      if limits.operations < s.operations + count then
        .error (.tooManyOperations limits.operations)
          { s with operations := s.operations + count }
      else .ok () { s with operations := s.operations + count } := by
  rw [countOperations, Effect.modify_bind_run, Effect.get_bind_run, failIf_run]
  simp only [decide_eq_true_eq]

theorem countOperations_one (hoperations : s.operations < env.limits.operations) :
    countOperations env.limits 1 s = .ok () { s with operations := s.operations + 1 } := by
  rw [countOperations_run, if_neg (Nat.not_lt.mpr hoperations)]

theorem execute_counted (hdata : i.data = []) (hcounted : i.op.isCounted = true)
    (hdisabled : i.op.isDisabled = false) (hexecuting : s.isExecuting = true) :
    execute env script offset i s =
      if s.operations < env.limits.operations then
        perform env script offset i { s with operations := s.operations + 1 }
      else
        .error (.tooManyOperations env.limits.operations)
          { s with operations := s.operations + 1 } := by
  have hpush : i.op.isPush = false := by
    have hop : Opcode.number16 < i.op := of_decide_eq_true hcounted
    rw [Bool.eq_false_iff]
    intro hpush
    exact UInt8.not_lt.mpr (le_number16_of_isPush hpush) hop
  have hsize : decide (env.limits.elementSize < i.data.length) = false := by simp [hdata]
  have hopen : State.isExecuting { s with operations := s.operations + 1 } = true := hexecuting
  unfold execute
  rw [failIf_bind_false _ _ _ hsize]
  dsimp only
  rw [if_pos hcounted]
  by_cases hoperations : s.operations < env.limits.operations
  · rw [if_pos hoperations, Effect.bind_of_ok (countOperations_one hoperations),
      failIf_bind_false _ _ _ hdisabled, Effect.get_bind_run, if_pos hopen,
      failIf_bind_false _ _ _ (by simp [hpush])]
  · have hover : countOperations env.limits 1 s = .error (.tooManyOperations env.limits.operations)
        { s with operations := s.operations + 1 } := by
      rw [countOperations_run, if_pos (Nat.lt_succ_of_le (Nat.le_of_not_lt hoperations))]
    rw [if_neg hoperations, Effect.bind_of_error hover]

theorem execute_of_counted (hdata : i.data = []) (hcounted : i.op.isCounted = true)
    (hdisabled : i.op.isDisabled = false) (hbranches : s.branches = [])
    (hoperations : s.operations < env.limits.operations) :
    execute env script offset i s =
      perform env script offset i { s with operations := s.operations + 1 } := by
  rw [execute_counted hdata hcounted hdisabled (isExecuting_of_branches hbranches),
    if_pos hoperations]

theorem execute_of_disabled (hdata : i.data = []) (hcounted : i.op.isCounted = true)
    (hdisabled : i.op.isDisabled = true) (hoperations : s.operations < env.limits.operations) :
    execute env script offset i s =
      .error (.disabled i.op) { s with operations := s.operations + 1 } := by
  have hsize : decide (env.limits.elementSize < i.data.length) = false := by simp [hdata]
  unfold execute
  rw [failIf_bind_false _ _ _ hsize]
  dsimp only
  rw [if_pos hcounted, Effect.bind_of_ok (countOperations_one hoperations),
    failIf_bind_true _ _ _ hdisabled]

theorem onData_run {α : Type} (op : StackM α) (s : State) :
    onData op s =
      match op s.data with
      | .ok a data => .ok a { s with data := data }
      | .error e data => .error e { s with data := data } := rfl

theorem onData_eq_ok_iff {α : Type} {op : StackM α} {a : α} :
    onData op s = .ok a t ↔ ∃ data, op s.data = .ok a data ∧ t = { s with data := data } := by
  rw [onData_run]
  cases op s.data with
  | error e data => simp
  | ok b data =>
      simp only [EStateM.Result.ok.injEq]
      constructor
      · rintro ⟨rfl, rfl⟩
        exact ⟨data, ⟨rfl, rfl⟩, rfl⟩
      · rintro ⟨_, ⟨rfl, rfl⟩, rfl⟩
        exact ⟨rfl, rfl⟩

theorem execute_stack_eq_ok_iff (op : StackOp) (haction : i.op.action = .stack op)
    (hdata : i.data = []) (hcounted : i.op.isCounted = true) (hbranches : s.branches = [])
    (hoperations : s.operations < env.limits.operations) :
    execute env script offset i s = .ok () t ↔
      ∃ data, op.run env.numberRule s.data = .ok () data ∧
        t = { s with data := data, operations := s.operations + 1 } := by
  have hdisabled : i.op.isDisabled = false := by
    rw [Opcode.isDisabled, haction]
    rfl
  rw [execute_of_counted hdata hcounted hdisabled hbranches hoperations, perform, haction]
  exact onData_eq_ok_iff

theorem execute_dup_eq_ok_iff (hbranches : s.branches = [])
    (hoperations : s.operations < env.limits.operations) :
    execute env script offset ⟨Opcode.dup, []⟩ s = .ok () t ↔
      ∃ item rest, s.data = item :: rest ∧
        t = { s with data := item :: item :: rest, operations := s.operations + 1 } := by
  rw [execute_stack_eq_ok_iff (.dup 1) rfl rfl rfl hbranches hoperations]
  cases hs : s.data with
  | nil => simp [StackOp.run, Stack.dup, Stack.times, Stack.pick, Stack.peek, bind, EStateM.bind]
  | cons item rest =>
      have hrun : (StackOp.dup 1).run env.numberRule (item :: rest) =
          .ok () (item :: item :: rest) := rfl
      simp [hrun]

theorem execute_hash160_eq_ok_iff (hbranches : s.branches = [])
    (hoperations : s.operations < env.limits.operations) :
    execute env script offset ⟨Opcode.hash160, []⟩ s = .ok () t ↔
      ∃ item rest, s.data = item :: rest ∧
        t = { s with
          data := (Hash.hash160 item).bytes :: rest
          operations := s.operations + 1 } := by
  rw [execute_stack_eq_ok_iff (.hash .hash160) rfl rfl rfl hbranches hoperations]
  cases hs : s.data with
  | nil => simp [StackOp.run, Stack.pop, bind, EStateM.bind]
  | cons item rest =>
      have hrun : (StackOp.hash .hash160).run env.numberRule (item :: rest) =
          .ok () ((Hash.hash160 item).bytes :: rest) := rfl
      simp [hrun]

theorem execute_equal_eq_ok_iff (hbranches : s.branches = [])
    (hoperations : s.operations < env.limits.operations) :
    execute env script offset ⟨Opcode.equal, []⟩ s = .ok () t ↔
      ∃ a b rest, s.data = a :: b :: rest ∧
        t = { s with data := Truth.encode (a == b) :: rest, operations := s.operations + 1 } := by
  rw [execute_stack_eq_ok_iff .equal rfl rfl rfl hbranches hoperations]
  cases hs : s.data with
  | nil => simp [StackOp.run, Stack.pop, bind, EStateM.bind]
  | cons a below =>
      cases below with
      | nil => simp [StackOp.run, Stack.pop, bind, EStateM.bind]
      | cons b rest =>
          have hrun : StackOp.equal.run env.numberRule (a :: b :: rest) =
              .ok () (Truth.encode (a == b) :: rest) := rfl
          simp [hrun]

theorem holds_encode (b : Bool) : Truth.holds (Truth.encode b) = b := by
  cases b <;> rfl

theorem requireTrue_encode (kind : VerifyKind) {b : Bool} {rest : Stack}
    (h : s.data = Truth.encode b :: rest) :
    requireTrue kind s =
      if b then .ok () { s with data := rest }
      else .error (.notTrue kind) { s with data := rest } := by
  have hpop : onData Stack.popBool s = .ok b { s with data := rest } := by
    have hbool : Stack.popBool s.data = .ok b rest := by
      rw [h]
      change EStateM.Result.ok (Truth.holds (Truth.encode b)) rest = _
      rw [holds_encode]
    rw [onData_run, hbool]
  rw [requireTrue, Effect.bind_of_ok hpop, failIf_run]
  cases b <;> rfl

theorem execute_equalVerify_eq_ok_iff (hbranches : s.branches = [])
    (hoperations : s.operations < env.limits.operations) :
    execute env script offset ⟨Opcode.equalVerify, []⟩ s = .ok () t ↔
      ∃ item rest, s.data = item :: item :: rest ∧
        t = { s with data := rest, operations := s.operations + 1 } := by
  have haction : Opcode.equalVerify.action = .stackVerify .equal .equal := rfl
  rw [execute_of_counted rfl rfl rfl hbranches hoperations, perform, haction]
  dsimp only
  cases hs : s.data with
  | nil => simp [onData_run, StackOp.run, Stack.pop, bind, EStateM.bind]
  | cons a below =>
      cases below with
      | nil => simp [onData_run, StackOp.run, Stack.pop, bind, EStateM.bind]
      | cons b rest =>
          have hrun : onData (StackOp.equal.run env.numberRule)
              { s with data := a :: b :: rest, operations := s.operations + 1 } =
              .ok () { s with
                data := Truth.encode (a == b) :: rest
                operations := s.operations + 1 } := rfl
          rw [Effect.bind_of_ok hrun, requireTrue_encode .equal rfl]
          by_cases hab : a = b
          · simp [hab, eq_comm]
          · rw [beq_eq_false_iff_ne.mpr hab, if_neg (by decide)]
            constructor
            · intro h
              cases h
            · rintro ⟨item, rest', heq, -⟩
              simp only [List.cons.injEq] at heq
              exact absurd (heq.1.trans heq.2.1.symm) hab

/-! ## Signature checks -/

theorem verifySignature_eq_ok_iff {code : Script} {signature publicKey : Bytes} {valid : Bool} :
    verifySignature env code signature publicKey s = .ok valid t ↔
      signature = [] ∧ valid = false ∧ t = s ∨
      ∃ hashType tx, signature.getLast? = some hashType ∧
        (env.has .forkId = true → hashType &&& forkIdBit ≠ 0) ∧ env.context = some tx ∧
        valid = (tx.verdict s.checks ⟨signature, publicKey, code, env.inputIndex, hashType⟩).getD
          false ∧
        t = { s with
          checks := s.checks ++ [⟨signature, publicKey, code, env.inputIndex, hashType⟩] } := by
  unfold verifySignature
  cases hlast : signature.getLast? with
  | none =>
      have hempty : signature = [] := List.getLast?_eq_none_iff.mp hlast
      constructor
      · intro h
        cases h
        exact .inl ⟨hempty, rfl, rfl⟩
      · rintro (⟨-, rfl, rfl⟩ | ⟨_, _, hlast, -⟩)
        · rfl
        · cases hlast
  | some hashType =>
      have hne : signature ≠ [] := by
        rintro rfl
        cases hlast
      dsimp only
      cases hfork : env.has .forkId && hashType &&& forkIdBit == 0
      · have hbit : env.has .forkId = true → hashType &&& forkIdBit ≠ 0 := by
          simpa using hfork
        rw [failIf_bind_false _ _ _ rfl]
        cases env.context with
        | none => simp [hne]
        | some tx =>
            simp only [judge, EStateM.Result.ok.injEq, hne, false_and, false_or, Option.some.injEq]
            constructor
            · rintro ⟨rfl, rfl⟩
              exact ⟨hashType, tx, rfl, hbit, rfl, rfl, rfl⟩
            · rintro ⟨_, _, rfl, -, rfl, rfl, rfl⟩
              exact ⟨rfl, rfl⟩
      · have hbit : env.has .forkId = true ∧ hashType &&& forkIdBit = 0 := by
          simpa using hfork
        rw [failIf_bind_true _ _ _ rfl]
        constructor
        · intro h
          cases h
        · rintro (⟨hempty, -⟩ | ⟨_, _, htype, hnot, -⟩)
          · exact absurd hempty hne
          · cases htype
            exact absurd hbit.2 (hnot hbit.1)

theorem checkSig_run {publicKey signature : Bytes} {rest : Stack}
    (h : s.data = publicKey :: signature :: rest) :
    checkSig env script s =
      (verifySignature env (signedCode env (script.drop s.codeStart) [signature]) signature
        publicKey >>= fun valid => onData (Stack.pushBool valid)) { s with data := rest } := by
  cases s
  cases h
  rfl

theorem checkSig_eq_ok_iff {publicKey signature : Bytes} {rest : Stack}
    (h : s.data = publicKey :: signature :: rest) :
    checkSig env script s = .ok () t ↔
      ∃ valid u, verifySignature env (signedCode env (script.drop s.codeStart) [signature])
          signature publicKey { s with data := rest } = .ok valid u ∧
        t = { u with data := Truth.encode valid :: u.data } := by
  rw [checkSig_run h, Effect.bind_eq_ok]
  constructor
  · rintro ⟨valid, u, hverify, hpush⟩
    cases hpush
    exact ⟨valid, u, hverify, rfl⟩
  · rintro ⟨valid, u, hverify, rfl⟩
    exact ⟨valid, u, hverify, rfl⟩

theorem execute_checkSig_eq_ok_iff (hbranches : s.branches = [])
    (hoperations : s.operations < env.limits.operations) :
    execute env script offset ⟨Opcode.checkSig, []⟩ s = .ok () t ↔
      ∃ publicKey signature rest valid u, s.data = publicKey :: signature :: rest ∧
        verifySignature env (signedCode env (script.drop s.codeStart) [signature]) signature
          publicKey { s with data := rest, operations := s.operations + 1 } = .ok valid u ∧
        t = { u with data := Truth.encode valid :: u.data } := by
  have haction : Opcode.checkSig.action = .checkSig false := rfl
  have hperform : ∀ u, perform env script offset ⟨Opcode.checkSig, []⟩ u = .ok () t ↔
      checkSig env script u = .ok () t := by
    intro u
    rw [perform, haction]
    dsimp only
    rw [Effect.bind_eq_ok]
    constructor
    · rintro ⟨_, w, hcheck, hend⟩
      cases hend
      exact hcheck
    · intro hcheck
      exact ⟨(), t, hcheck, rfl⟩
  rw [execute_of_counted rfl rfl rfl hbranches hoperations, hperform]
  cases hs : s.data with
  | nil => simp [checkSig, onData_run, Stack.pop, bind, EStateM.bind]
  | cons publicKey below =>
      cases below with
      | nil => simp [checkSig, onData_run, Stack.pop, bind, EStateM.bind]
      | cons signature rest =>
          rw [checkSig_eq_ok_iff rfl]
          simp only [List.cons.injEq, and_assoc, exists_and_left, exists_eq_left']

end UtxoSpend.Exec
