import Mathlib
import UtxoSpend.Proofs.Machine.Building

/-!
# What an instruction leaves alone, and what it asks

Only the signature opcodes ask for signature checks, and only the code separator moves the place
where the signed code begins.  Main statements: every other opcode leaves both as they are, and a
signature opcode, whether it succeeds or fails on the way, asks about nothing but the keys, the
signatures and the code that it was given.
-/

namespace UtxoSpend

open Effect

namespace State

structure Unasked (s t : State) : Prop where
  checks : t.checks = s.checks
  codeStart : t.codeStart = s.codeStart

theorem Unasked.refl (s : State) : Unasked s s := ⟨rfl, rfl⟩

/-- Some checks were asked for, each with the property, and the signed code begins where it did. -/
structure Asks (P : SignatureCheck → Prop) (s t : State) : Prop where
  checks : ∃ asked, t.checks = s.checks ++ asked ∧ ∀ check ∈ asked, P check
  codeStart : t.codeStart = s.codeStart

namespace Asks

variable {P Q : SignatureCheck → Prop} {s t u : State}

theorem of_unasked (h : Unasked s t) : Asks P s t :=
  ⟨⟨[], by rw [h.checks, List.append_nil], by simp⟩, h.codeStart⟩

theorem refl (s : State) : Asks P s s := of_unasked (.refl s)

theorem trans (h : Asks P s t) (h' : Asks P t u) : Asks P s u := by
  obtain ⟨⟨asked, hchecks, hasked⟩, hstart⟩ := h
  obtain ⟨⟨asked', hchecks', hasked'⟩, hstart'⟩ := h'
  refine ⟨⟨asked ++ asked', ?_, ?_⟩, hstart'.trans hstart⟩
  · rw [hchecks', hchecks, List.append_assoc]
  · intro check hmem
    rcases List.mem_append.mp hmem with hmem | hmem
    · exact hasked check hmem
    · exact hasked' check hmem

theorem mono (h : Asks P s t) (hle : ∀ check, P check → Q check) : Asks Q s t := by
  obtain ⟨⟨asked, hchecks, hasked⟩, hstart⟩ := h
  exact ⟨⟨asked, hchecks, fun check hmem => hle check (hasked check hmem)⟩, hstart⟩

theorem after_unasked (h : Unasked s t) (h' : Asks P t u) : Asks P s u := (of_unasked h).trans h'

end Asks

end State

open State

namespace Exec

variable {env : Env}

/-! ## What does not ask -/

theorem unasked_of_built (env : Env) {α : Type} {x : Exec α}
    (h : Built env Any {.branches, .operations} x) : Preserves Unasked x :=
  fun s => ⟨h.sameBut s .checks (by simp), h.sameBut s .codeStart (by simp)⟩

def checksSignatures : Action → Bool
  | .checkSig _ => true
  | .checkMultiSig _ => true
  | _ => false

theorem perform_unasked {script : List Instruction} {offset : Nat} {i : Instruction}
    (hseparator : i.op.action ≠ .codeSeparator) (hchecks : checksSignatures i.op.action = false) :
    Preserves Unasked (perform env script offset i) := by
  have hparts : i.op.action.parts ⊆ {.branches, .operations} := by
    cases haction : i.op.action <;> simp_all [Action.parts, checksSignatures]
  exact unasked_of_built env (.perform .any script offset trivial hparts)

/-! ## What is taken from the stack -/

theorem pop_eq_ok {data below : Stack} {item : Bytes} (h : Stack.pop data = .ok item below) :
    data = item :: below := by
  cases data with
  | nil => cases h
  | cons top data =>
      cases h
      rfl

theorem popNumber_eq_ok {rule : NumberRule} {data below : Stack} {n : Int64}
    (h : Stack.popNumber rule data = .ok n below) :
    ∃ item, data = item :: below ∧ Number.decode rule item = .ok n := by
  obtain ⟨item, rest, hpop, hread⟩ := bind_eq_ok.mp h
  cases hnumber : Number.decode rule item with
  | error e =>
      rw [hnumber] at hread
      cases hread
  | ok value =>
      rw [hnumber] at hread
      cases hread
      exact ⟨item, pop_eq_ok hpop, hnumber⟩

theorem popMany_eq_ok {count : Nat} {data below : Stack} {items : List Bytes}
    (h : Stack.popMany count data = .ok items below) :
    data = items ++ below ∧ items.length = count := by
  induction count generalizing data items with
  | zero =>
      cases h
      exact ⟨rfl, rfl⟩
  | succ count ih =>
      obtain ⟨item, rest, hpop, h⟩ := bind_eq_ok.mp h
      obtain ⟨others, rest', hmany, h⟩ := bind_eq_ok.mp h
      cases h
      obtain ⟨rfl, rfl⟩ := ih hmany
      exact ⟨pop_eq_ok hpop, rfl⟩

theorem failIf_eq_ok {condition : Bool} {failure : Failure} {s t : State}
    (h : failIf condition failure s = .ok () t) : condition = false ∧ t = s := by
  rw [failIf_run] at h
  cases condition with
  | true => cases h
  | false =>
      cases h
      exact ⟨rfl, rfl⟩

theorem popCount_eq_ok {limit count : Nat} {failure : Int → Failure} {s t : State}
    (h : popCount env limit failure s = .ok count t) :
    ∃ item below n, s.data = item :: below ∧ Number.decode env.numberRule item = .ok n ∧
      n.toInt = count ∧ count ≤ limit ∧ t = { s with data := below } := by
  obtain ⟨n, u, hpop, h⟩ := bind_eq_ok.mp h
  obtain ⟨_, v, hinside, h⟩ := bind_eq_ok.mp h
  obtain ⟨below, hnumber, rfl⟩ := onData_eq_ok_iff.mp hpop
  obtain ⟨item, hdata, hread⟩ := popNumber_eq_ok hnumber
  obtain ⟨hrange, rfl⟩ := failIf_eq_ok hinside
  cases h
  obtain ⟨hneg, hover⟩ := Bool.or_eq_false_iff.mp hrange
  have hnonneg : ¬n < 0 := of_decide_eq_false hneg
  have hlimit : ¬limit < n.toInt.toNat := of_decide_eq_false hover
  rw [Int64.lt_iff_toInt_lt] at hnonneg
  have hle : 0 ≤ n.toInt := by simpa using hnonneg
  exact ⟨item, below, n, hdata, hread, (Int.toNat_of_nonneg hle).symm, Nat.le_of_not_lt hlimit, rfl⟩

theorem countOperations_eq_ok {limits : Limits} {count : Nat} {s t : State}
    (h : countOperations limits count s = .ok () t) :
    s.operations + count ≤ limits.operations ∧
      t = { s with operations := s.operations + count } := by
  rw [countOperations, modify_bind_run, get_bind_run] at h
  obtain ⟨hlimit, rfl⟩ := failIf_eq_ok h
  exact ⟨Nat.le_of_not_lt (of_decide_eq_false hlimit), rfl⟩

/-! ## What signature opcodes take before they look at the script -/

theorem takeOne_eq_ok {publicKey signature : Bytes} {s t : State}
    (h : takeOne s = .ok (publicKey, signature) t) :
    ∃ below, s.data = publicKey :: signature :: below ∧ t = { s with data := below } := by
  obtain ⟨_, s₁, hkey, h⟩ := bind_eq_ok.mp h
  obtain ⟨_, s₂, hsignature, h⟩ := bind_eq_ok.mp h
  cases h
  obtain ⟨below₁, hpopKey, rfl⟩ := onData_eq_ok_iff.mp hkey
  obtain ⟨below, hpopSignature, rfl⟩ := onData_eq_ok_iff.mp hsignature
  have hbelow : below₁ = signature :: below := pop_eq_ok hpopSignature
  refine ⟨below, ?_, rfl⟩
  rw [pop_eq_ok hpopKey, hbelow]

/-- The stack from which keys and signatures are taken, and the state that is left. -/
theorem takeSeveral_eq_ok {keys signatures : List Bytes} {s t : State}
    (h : takeSeveral env s = .ok (keys, signatures) t) :
    ∃ keyCount signatureCount dummy below n k,
      s.data = keyCount :: (keys ++ signatureCount :: (signatures ++ dummy :: below)) ∧
      Number.decode env.numberRule keyCount = .ok n ∧ n.toInt = keys.length ∧
      Number.decode env.numberRule signatureCount = .ok k ∧ k.toInt = signatures.length ∧
      signatures.length ≤ keys.length ∧ s.operations + keys.length ≤ env.limits.operations ∧
      t = { s with data := below, operations := s.operations + keys.length } := by
  obtain ⟨keyNumber, s₁, hkeyCount, h⟩ := bind_eq_ok.mp h
  obtain ⟨_, s₂, hcounted, h⟩ := bind_eq_ok.mp h
  obtain ⟨_, s₃, hkeys, h⟩ := bind_eq_ok.mp h
  obtain ⟨signatureNumber, s₄, hsignatureCount, h⟩ := bind_eq_ok.mp h
  obtain ⟨_, s₅, hsignatures, h⟩ := bind_eq_ok.mp h
  obtain ⟨dummy, s₆, hdummy, h⟩ := bind_eq_ok.mp h
  obtain ⟨_, s₇, hstrict, h⟩ := bind_eq_ok.mp h
  cases h
  -- Seven operations have succeeded, and together they took everything from the stack.
  obtain ⟨keyItem, below₁, n, hkeyCountData, hreadKeys, hn, -, rfl⟩ := popCount_eq_ok hkeyCount
  obtain ⟨hlimit, rfl⟩ := countOperations_eq_ok hcounted
  obtain ⟨below₂, hpopKeys, rfl⟩ := onData_eq_ok_iff.mp hkeys
  obtain ⟨signatureItem, below₃, k, hsignatureCountData, hreadSignatures, hk, hfew, rfl⟩ :=
    popCount_eq_ok hsignatureCount
  obtain ⟨below₄, hpopSignatures, rfl⟩ := onData_eq_ok_iff.mp hsignatures
  obtain ⟨below₅, hpopDummy, rfl⟩ := onData_eq_ok_iff.mp hdummy
  obtain ⟨-, rfl⟩ := failIf_eq_ok hstrict
  obtain ⟨hkeysData, rfl⟩ := popMany_eq_ok hpopKeys
  obtain ⟨hsignaturesData, rfl⟩ := popMany_eq_ok hpopSignatures
  have hstack : s.data = keyItem :: (keys ++ signatureItem :: (signatures ++ dummy :: below₅)) :=
    calc s.data
        = keyItem :: below₁ := hkeyCountData
      _ = keyItem :: (keys ++ below₂) := congrArg _ hkeysData
      _ = keyItem :: (keys ++ signatureItem :: below₃) :=
          congrArg (fun below => keyItem :: (keys ++ below)) hsignatureCountData
      _ = keyItem :: (keys ++ signatureItem :: (signatures ++ below₄)) :=
          congrArg (fun below => keyItem :: (keys ++ signatureItem :: below)) hsignaturesData
      _ = keyItem :: (keys ++ signatureItem :: (signatures ++ dummy :: below₅)) :=
          congrArg (fun below => keyItem :: (keys ++ signatureItem :: (signatures ++ below)))
            (pop_eq_ok hpopDummy)
  exact ⟨keyItem, signatureItem, dummy, below₅, n, k, hstack, hreadKeys, hn, hreadSignatures, hk,
    hfew, hlimit, rfl⟩

/-! ## What is asked -/

/-- A check that is about one of the keys and one of the signatures, and about the code. -/
structure AskedOf (env : Env) (code : Script) (keys signatures : List Bytes)
    (check : SignatureCheck) : Prop where
  publicKey : check.publicKey ∈ keys
  signature : check.signature ∈ signatures
  code : check.code = code
  inputIndex : check.inputIndex = env.inputIndex
  hashType : check.signature.getLast? = some check.hashType
  forkIdBit : env.has .forkId = true → check.hashType &&& forkIdBit ≠ 0

variable {code : Script} {keys signatures : List Bytes}

theorem verifySignature_asks {signature publicKey : Bytes} (hkey : publicKey ∈ keys)
    (hsignature : signature ∈ signatures) :
    Preserves (Asks (AskedOf env code keys signatures))
      (verifySignature env code signature publicKey) := by
  unfold verifySignature
  cases hlast : signature.getLast? with
  | none => exact .pure .refl _
  | some hashType =>
      dsimp only
      cases hfork : env.has .forkId && hashType &&& forkIdBit == 0 with
      | true => exact fun s => .refl s
      | false =>
          have hbit : env.has .forkId = true → hashType &&& forkIdBit ≠ 0 := by simpa using hfork
          refine ((unasked_of_built env (.failIf rfl)).mono .of_unasked).bind .trans fun _ => ?_
          cases env.context with
          | none => exact .throw .refl _
          | some tx =>
              intro s
              refine ⟨⟨[_], rfl, ?_⟩, rfl⟩
              intro check hmem
              rw [List.mem_singleton] at hmem
              subst hmem
              exact ⟨hkey, hsignature, rfl, rfl, hlast, hbit⟩

/-- However many keys are tried, they are among those that are left, and so are the signatures. -/
theorem matchKeys_asks {ks ss : List Bytes} (hkeys : ks ⊆ keys) (hsignatures : ss ⊆ signatures) :
    Preserves (Asks (AskedOf env code keys signatures)) (matchKeys env code ks ss) := by
  induction ks generalizing ss with
  | nil => cases ss <;> exact .pure .refl _
  | cons key ks ih =>
      cases ss with
      | nil => exact .pure .refl _
      | cons signature ss =>
          obtain ⟨hkey, hkeys⟩ := List.cons_subset.mp hkeys
          obtain ⟨hsignature, hrest⟩ := List.cons_subset.mp hsignatures
          refine (verifySignature_asks hkey hsignature).bind .trans fun valid => ?_
          refine Preserves.ite (.pure .refl _) (ih hkeys ?_)
          cases valid with
          | true => exact hrest
          | false => exact hsignatures

/-- The keys and signatures that a signature opcode takes from a stack. -/
inductive Takes (rule : NumberRule) : Action → Stack → List Bytes → List Bytes → Prop
  | one (verify : Bool) (publicKey signature : Bytes) (below : Stack) :
      Takes rule (.checkSig verify) (publicKey :: signature :: below) [publicKey] [signature]
  | several (verify : Bool) {keyCount signatureCount : Bytes} {n k : Int64}
      (keys signatures : List Bytes) (dummy : Bytes) (below : Stack)
      (hkeyCount : Number.decode rule keyCount = .ok n) (hkeys : n.toInt = keys.length)
      (hsignatureCount : Number.decode rule signatureCount = .ok k)
      (hsignatures : k.toInt = signatures.length) :
      Takes rule (.checkMultiSig verify)
        (keyCount :: (keys ++ signatureCount :: (signatures ++ dummy :: below))) keys signatures

/-- A check that a signature opcode may ask for: it is about what the opcode takes from the stack,
and about what is left of the signed part of the script. -/
def AskedBy (env : Env) (script : List Instruction) (action : Action) (s : State)
    (check : SignatureCheck) : Prop :=
  ∃ keys signatures, Takes env.numberRule action s.data keys signatures ∧
    AskedOf env (signedCode env (script.drop s.codeStart) signatures) keys signatures check

theorem asks_bind {α β : Type} {P : SignatureCheck → Prop} {x : Exec α} {f : α → Exec β} {s : State}
    (hx : Preserves Unasked x) (h : ∀ a t, x s = .ok a t → Asks P t (left (f a t))) :
    Asks P s (left ((x >>= f) s)) := by
  cases hrun : x s with
  | error e t =>
      rw [bind_of_error hrun]
      exact .of_unasked (hx.of_error hrun)
  | ok a t =>
      rw [bind_of_ok hrun]
      exact .after_unasked (hx.of_ok hrun) (h a t hrun)

theorem asks_then {α β : Type} {P : SignatureCheck → Prop} {x : Exec α} {f : α → Exec β} {s : State}
    (hx : Asks P s (left (x s))) (h : ∀ a, Preserves Unasked (f a)) :
    Asks P s (left ((x >>= f) s)) := by
  cases hrun : x s with
  | error e t =>
      rw [hrun] at hx
      rw [bind_of_error hrun]
      exact hx
  | ok a t =>
      rw [hrun] at hx
      rw [bind_of_ok hrun]
      exact hx.trans (.of_unasked (h a t))

theorem checkSig_asks (script : List Instruction) (verify : Bool) (s : State) :
    Asks (AskedBy env script (.checkSig verify) s) s (left (checkSig env script s)) := by
  rw [checkSig_eq_takeOne]
  refine asks_bind (unasked_of_built env .takeOne) fun taken t htake => ?_
  obtain ⟨publicKey, signature⟩ := taken
  obtain ⟨below, hstack, rfl⟩ := takeOne_eq_ok htake
  have htakes : Takes env.numberRule (.checkSig verify) s.data [publicKey] [signature] := by
    rw [hstack]
    exact .one verify publicKey signature below
  dsimp only
  rw [get_bind_run]
  refine asks_then ?_ fun valid => unasked_of_built env (.pushBool .any valid)
  have hkey := List.mem_singleton_self publicKey
  have hsignature := List.mem_singleton_self signature
  refine (verifySignature_asks hkey hsignature _).mono fun check hcheck => ?_
  exact ⟨[publicKey], [signature], htakes, hcheck⟩

theorem checkMultiSig_asks (script : List Instruction) (verify : Bool) (s : State) :
    Asks (AskedBy env script (.checkMultiSig verify) s) s (left (checkMultiSig env script s)) := by
  rw [checkMultiSig_eq_takeSeveral]
  refine asks_bind (unasked_of_built env (.takeSeveral (.inr rfl))) fun taken t htake => ?_
  obtain ⟨keys, signatures⟩ := taken
  obtain ⟨keyCount, signatureCount, dummy, below, n, k, hstack, hreadKeys, hn, hreadSignatures, hk,
    -, -, rfl⟩ := takeSeveral_eq_ok htake
  have htakes : Takes env.numberRule (.checkMultiSig verify) s.data keys signatures := by
    rw [hstack]
    exact .several verify keys signatures dummy below hreadKeys hn hreadSignatures hk
  dsimp only
  rw [get_bind_run]
  refine asks_then ?_ fun valid => unasked_of_built env (.pushBool .any valid)
  refine (matchKeys_asks (List.Subset.refl _) (List.Subset.refl _) _).mono fun check hcheck => ?_
  exact ⟨keys, signatures, htakes, hcheck⟩

/-! ## Instructions -/

theorem action_eq_codeSeparator_iff {op : Opcode} :
    op.action = .codeSeparator ↔ op = Opcode.codeSeparator :=
  forall_byte (p := fun op => Opcode.action op = .codeSeparator ↔ op = Opcode.codeSeparator)
    (by decide +kernel) op

/-- What runs in a branch that does not run neither asks nor separates. -/
theorem action_of_isConditional {op : Opcode} (h : op.isConditional = true) :
    op.action ≠ .codeSeparator ∧ checksSignatures op.action = false :=
  forall_byte (p := fun op => Opcode.isConditional op = true →
    Opcode.action op ≠ .codeSeparator ∧ checksSignatures (Opcode.action op) = false)
    (by decide +kernel) op h

variable {script : List Instruction} {offset : Nat} {i : Instruction} {s t : State}

theorem perform_asks (hseparator : i.op.action ≠ .codeSeparator) (s : State) :
    Asks (AskedBy env script i.op.action s) s (left (perform env script offset i s)) := by
  cases hchecks : checksSignatures i.op.action with
  | false => exact .of_unasked (perform_unasked hseparator hchecks s)
  | true =>
      unfold perform
      cases haction : i.op.action with
      | checkSig verify =>
          refine asks_then (checkSig_asks script verify s) fun _ => ?_
          exact unasked_of_built env (.ite (.requireTrue _) (.pure ()))
      | checkMultiSig verify =>
          refine asks_then (checkMultiSig_asks script verify s) fun _ => ?_
          exact unasked_of_built env (.ite (.requireTrue _) (.pure ()))
      | _ =>
          rw [haction] at hchecks
          cases hchecks

theorem perform_codeSeparator (haction : i.op.action = .codeSeparator) (s : State) :
    perform env script offset i s = .ok () { s with codeStart := offset + 1 } := by
  rw [perform, haction]
  rfl

theorem precheck_unasked (env : Env) (i : Instruction) : Preserves Unasked (precheck env i) :=
  unasked_of_built env (.precheck (.inr rfl) i)

theorem precheck_eq_ok (h : precheck env i s = .ok () t) :
    ∃ operations, t = { s with operations := operations } := by
  obtain ⟨_, u, hsize, hrest⟩ := bind_eq_ok.mp h
  obtain ⟨-, rfl⟩ := failIf_eq_ok hsize
  split at hrest
  · obtain ⟨_, v, hcount, hdisabled⟩ := bind_eq_ok.mp hrest
    obtain ⟨-, rfl⟩ := failIf_eq_ok hdisabled
    exact ⟨_, (countOperations_eq_ok hcount).2⟩
  · obtain ⟨-, rfl⟩ := failIf_eq_ok hrest
    exact ⟨_, rfl⟩

theorem perform_asked (env : Env) (script : List Instruction) (offset : Nat) (i : Instruction)
    (s : State) :
    ∃ asked, (left (perform env script offset i s)).checks = s.checks ++ asked ∧
      ∀ check ∈ asked, AskedBy env script i.op.action s check := by
  by_cases hseparator : i.op.action = .codeSeparator
  · rw [perform_codeSeparator hseparator]
    exact ⟨[], (List.append_nil _).symm, by simp⟩
  · exact (perform_asks hseparator s).checks

theorem performOpen_asked (env : Env) (script : List Instruction) (offset : Nat) (i : Instruction)
    (s : State) :
    ∃ asked, (left (performOpen env script offset i s)).checks = s.checks ++ asked ∧
      ∀ check ∈ asked, AskedBy env script i.op.action s check := by
  have hperform := perform_asked env script offset i s
  have hnothing : ∃ asked, s.checks = s.checks ++ asked ∧
      ∀ check ∈ asked, AskedBy env script i.op.action s check :=
    (Asks.refl s).checks
  rw [performOpen, get_bind_run]
  split_ifs
  · cases hwasteful : env.has .minimalData && i.op.isPush && !i.isMinimalPush with
    | true => exact hnothing
    | false => exact hperform
  · exact hperform
  · exact hnothing

/-- Every check that an instruction asks for is one that its opcode may ask for. -/
theorem execute_asked (env : Env) (script : List Instruction) (offset : Nat) (i : Instruction)
    (s : State) :
    ∃ asked, (left (execute env script offset i s)).checks = s.checks ++ asked ∧
      ∀ check ∈ asked, AskedBy env script i.op.action s check := by
  rw [execute_eq]
  cases hprecheck : precheck env i s with
  | error e t =>
      rw [bind_of_error hprecheck]
      exact (Asks.of_unasked ((precheck_unasked env i).of_error hprecheck)).checks
  | ok u t =>
      rw [bind_of_ok hprecheck]
      obtain ⟨operations, rfl⟩ := precheck_eq_ok hprecheck
      exact performOpen_asked env script offset i _

theorem codeStart_of_perform (h : perform env script offset i s = .ok () t) :
    t.codeStart = if i.op = Opcode.codeSeparator then offset + 1 else s.codeStart := by
  by_cases hseparator : i.op.action = .codeSeparator
  · rw [perform_codeSeparator hseparator] at h
    cases h
    rw [if_pos (action_eq_codeSeparator_iff.mp hseparator)]
  · have hasks : Asks _ s (left (perform env script offset i s)) := perform_asks hseparator s
    rw [h] at hasks
    rw [if_neg (mt action_eq_codeSeparator_iff.mpr hseparator)]
    exact hasks.codeStart

theorem codeStart_of_performOpen (h : performOpen env script offset i s = .ok () t) :
    t.codeStart =
      if s.isExecuting = true ∧ i.op = Opcode.codeSeparator then offset + 1 else s.codeStart := by
  rw [performOpen, get_bind_run] at h
  split_ifs at h with hexecuting hconditional
  · obtain ⟨_, u, hminimal, hperform⟩ := bind_eq_ok.mp h
    obtain ⟨-, rfl⟩ := failIf_eq_ok hminimal
    rw [codeStart_of_perform hperform]
    simp only [hexecuting, true_and]
  · obtain ⟨hop, -⟩ := action_of_isConditional hconditional
    rw [codeStart_of_perform h, if_neg (mt action_eq_codeSeparator_iff.mpr hop),
      if_neg (fun hboth => hexecuting hboth.1)]
  · cases h
    rw [if_neg (fun hboth => hexecuting hboth.1)]

/-- The signed code begins after the last code separator that was performed. -/
theorem codeStart_of_execute (h : execute env script offset i s = .ok () t) :
    t.codeStart =
      if s.isExecuting = true ∧ i.op = Opcode.codeSeparator then offset + 1 else s.codeStart := by
  rw [execute_eq] at h
  obtain ⟨_, u, hprecheck, hperform⟩ := bind_eq_ok.mp h
  obtain ⟨operations, rfl⟩ := precheck_eq_ok hprecheck
  -- The operations counted before have no part in it.
  have hstart := codeStart_of_performOpen hperform
  exact hstart

end Exec

end UtxoSpend
