import Mathlib
import UtxoSpend.Proofs.Machine.Items
import UtxoSpend.Proofs.Machine.Operations

/-!
# What instructions are built from

An instruction works on the stacks, looks at parts of the state and changes parts of it, fails, or
asks for a check.  Main statements: every instruction is a sequence of such operations, none of
which looks at the list of checks; it changes only the parts of the state that belong to its opcode,
and keeps every property of items that holds of what is pushed.  Whatever holds of these operations
and of their sequences is proved of all instructions without another walk through the opcodes.
-/

namespace UtxoSpend

open Effect

/-! ## Parts of a state -/

inductive Part
  | branches
  | codeStart
  | operations
  | checks

namespace State

def Same (s t : State) : Part → Prop
  | .branches => t.branches = s.branches
  | .codeStart => t.codeStart = s.codeStart
  | .operations => t.operations = s.operations
  | .checks => t.checks = s.checks

def SameBut (parts : Set Part) (s t : State) : Prop := ∀ p ∉ parts, s.Same t p

variable {parts : Set Part} {s t u : State}

theorem SameBut.of_same (h : ∀ p, s.Same t p) : SameBut parts s t := fun p _ => h p

theorem SameBut.refl (s : State) : SameBut parts s s := .of_same fun p => by cases p <;> rfl

theorem SameBut.trans (h : SameBut parts s t) (h' : SameBut parts t u) : SameBut parts s u := by
  intro p hp
  have hst := h p hp
  have htu := h' p hp
  cases p <;> exact Eq.trans htu hst

structure Items (Q : Bytes → Prop) (s : State) : Prop where
  data : s.data.All Q
  alt : s.alt.All Q

def after (earlier : List SignatureCheck) (s : State) : State :=
  { s with checks := earlier ++ s.checks }

end State

/-- The parts of the state that an action may change. -/
def Action.parts : Action → Set Part
  | .branch _ | .otherwise | .endBranch => {.branches}
  | .codeSeparator => {.codeStart}
  | .checkSig _ => {.checks}
  | .checkMultiSig _ => {.operations, .checks}
  | _ => ∅

namespace Exec

/-! ## What signature opcodes take before they look at the script -/

def takeOne : Exec (Bytes × Bytes) := do
  let publicKey ← onData Stack.pop
  let signature ← onData Stack.pop
  return (publicKey, signature)

def takeSeveral (env : Env) : Exec (List Bytes × List Bytes) := do
  let keyCount ← popCount env env.limits.multisigKeys (.keyCount · env.limits.multisigKeys)
  countOperations env.limits keyCount
  let keys ← onData (Stack.popMany keyCount)
  let signatureCount ← popCount env keyCount (.signatureCount · keyCount)
  let signatures ← onData (Stack.popMany signatureCount)
  let dummy ← onData Stack.pop
  failIf (env.has .strictMultisig && !dummy.isEmpty) (.dummyNotEmpty dummy.length)
  return (keys, signatures)

theorem checkSig_eq_takeOne (env : Env) (script : List Instruction) :
    checkSig env script = (do
      let (publicKey, signature) ← takeOne
      let part := script.drop (← get).codeStart
      let valid ← verifySignature env (signedCode env part [signature]) signature publicKey
      onData (Stack.pushBool valid)) := by
  simp only [checkSig, takeOne, bind_assoc, pure_bind]

theorem checkMultiSig_eq_takeSeveral (env : Env) (script : List Instruction) :
    checkMultiSig env script = (do
      let (keys, signatures) ← takeSeveral env
      let part := script.drop (← get).codeStart
      let valid ← matchKeys env (signedCode env part signatures) keys signatures
      onData (Stack.pushBool valid)) := by
  simp only [checkMultiSig, takeSeveral, bind_assoc, pure_bind]

/-! ## Operations that are built -/

theorem flipBranch_eq (op : Opcode) :
    flipBranch op = get >>= fun s =>
      match s.branches with
      | [] => throw (.noConditional op)
      | b :: r => modify fun s => { s with branches := (!b) :: r } := by
  funext ⟨data, alt, branches, codeStart, operations, checks⟩
  cases branches <;> rfl

theorem closeBranch_eq (op : Opcode) :
    closeBranch op = get >>= fun s =>
      match s.branches with
      | [] => throw (.noConditional op)
      | _ :: r => modify fun s => { s with branches := r } := by
  funext ⟨data, alt, branches, codeStart, operations, checks⟩
  cases branches <;> rfl

inductive Change (parts : Set Part) : (State → State) → Prop
  | branches (h : .branches ∈ parts) (f : List Bool → List Bool) :
      Change parts fun s => { s with branches := f s.branches }
  | codeStart (h : .codeStart ∈ parts) (n : Nat) :
      Change parts fun s => { s with codeStart := n }
  | operations (h : .operations ∈ parts) (n : Nat) :
      Change parts fun s => { s with operations := s.operations + n }

/-- Operations that are sequences of simple ones. They keep a property of items, change some parts
of the state, look at everything but the checks, and fail with failures of instructions. -/
inductive Built (env : Env) (Q : Bytes → Prop) (parts : Set Part) : ∀ {α : Type}, Exec α → Prop
  | pure {α : Type} (a : α) : Built env Q parts (Pure.pure a : Exec α)
  | throw {α : Type} {e : Failure} (h : e.isOfInstruction = true) :
      Built env Q parts (throw e : Exec α)
  | bind {α β : Type} {x : Exec α} {f : α → Exec β} (h : Built env Q parts x)
      (h' : ∀ a, Built env Q parts (f a)) : Built env Q parts (x >>= f)
  | look {α : Type} {f : State → Exec α} (hblind : ∀ earlier s, f (s.after earlier) = f s)
      (h : ∀ s, Built env Q parts (f s)) : Built env Q parts (get >>= f)
  | change {f : State → State} (h : Change parts f) : Built env Q parts (modify f)
  | data {α : Type} {op : StackM α} (h : Stack.Yields Q Any op) : Built env Q parts (onData op)
  | toAlt : Built env Q parts (do onAlt (Stack.push (← onData Stack.pop)))
  | fromAlt : Built env Q parts (do onData (Stack.push (← onAlt Stack.pop)))
  | judge (h : .checks ∈ parts) {tx : TxContext} (htx : env.context = some tx)
      (check : SignatureCheck) : Built env Q parts (judge tx check)

namespace Built

variable {env : Env} {Q : Bytes → Prop} {parts : Set Part} {α : Type}

theorem ite {p : Prop} [Decidable p] {x y : Exec α} (h : Built env Q parts x)
    (h' : Built env Q parts y) : Built env Q parts (if p then x else y) := by
  split_ifs
  · exact h
  · exact h'

theorem failIf {condition : Bool} {failure : Failure} (h : failure.isOfInstruction = true) :
    Built env Q parts (Exec.failIf condition failure) := by
  cases condition
  · exact .pure ()
  · exact .throw h

theorem test {verdict : Except Failure Unit} (h : RefusesInside verdict) :
    Built env Q parts (Exec.test verdict) := by
  cases verdict with
  | ok u => exact .pure ()
  | error e => exact .throw (h e rfl)

theorem pop : Built env Q parts (onData Stack.pop) := .data (Stack.pop_yields.any)

theorem popMany (count : Nat) : Built env Q parts (onData (Stack.popMany count)) :=
  .data (Stack.popMany_yields count)

theorem requireTrue (kind : VerifyKind) : Built env Q parts (Exec.requireTrue kind) :=
  .bind (.data Stack.popBool_yields) fun _ => failIf rfl

theorem countOperations (h : .operations ∈ parts) (limits : Limits) (count : Nat) :
    Built env Q parts (Exec.countOperations limits count) :=
  .bind (.change (.operations h count)) fun _ => .look (fun _ _ => rfl) fun _ => failIf rfl

/-! ### Conditionals and lock times -/

theorem openBranch (h : .branches ∈ parts) (negated : Bool) :
    Built env Q parts (Exec.openBranch negated) := by
  have hopen : ∀ runs,
      Built env Q parts (modify fun s => { s with branches := runs :: s.branches }) :=
    fun runs => .change (.branches h fun branches => runs :: branches)
  refine .look (fun _ _ => rfl) fun s => .ite ?_ (hopen false)
  exact .bind (.data Stack.popBool_yields) fun condition => hopen _

theorem flipBranch (h : .branches ∈ parts) (op : Opcode) :
    Built env Q parts (Exec.flipBranch op) := by
  rw [flipBranch_eq]
  refine .look (fun _ _ => rfl) fun s => ?_
  cases s.branches with
  | nil => exact .throw rfl
  | cons b r => exact .change (.branches h fun _ => (!b) :: r)

theorem closeBranch (h : .branches ∈ parts) (op : Opcode) :
    Built env Q parts (Exec.closeBranch op) := by
  rw [closeBranch_eq]
  refine .look (fun _ _ => rfl) fun s => ?_
  cases s.branches with
  | nil => exact .throw rfl
  | cons b r => exact .change (.branches h fun _ => r)

theorem lockOpcode {check : Stack → Except Failure Unit} (h : ∀ stack, RefusesInside (check stack))
    (active : Bool) (op : Opcode) :
    Built env Q parts
      (if active then do Exec.test (check (← get).data) else upgradable env op) :=
  .ite (.look (fun _ _ => rfl) fun _ => test (h _)) (failIf rfl)

/-! ### Signature checks -/

theorem popCount (limit : Nat) {failure : Int → Failure}
    (h : ∀ count, (failure count).isOfInstruction = true) :
    Built env Q parts (Exec.popCount env limit failure) :=
  .bind (.data (Stack.popNumber_yields _)) fun _ => .bind (failIf (h _)) fun _ => .pure _

theorem takeOne : Built env Q parts Exec.takeOne :=
  .bind pop fun _ => .bind pop fun _ => .pure _

theorem takeSeveral (h : .operations ∈ parts) : Built env Q parts (Exec.takeSeveral env) := by
  refine .bind (popCount _ fun _ => rfl) fun keyCount => .bind (countOperations h _ _) fun _ => ?_
  refine .bind (popMany _) fun keys => .bind (popCount _ fun _ => rfl) fun signatureCount => ?_
  refine .bind (popMany _) fun signatures => .bind pop fun dummy => .bind (failIf rfl) fun _ => ?_
  exact .pure _

theorem verifySignature (h : .checks ∈ parts) (code : Script) (signature publicKey : Bytes) :
    Built env Q parts (Exec.verifySignature env code signature publicKey) := by
  unfold Exec.verifySignature
  cases signature.getLast? with
  | none => exact .pure false
  | some hashType =>
      refine .bind (failIf rfl) fun _ => ?_
      cases hcontext : env.context with
      | none => exact .throw rfl
      | some tx => exact .judge h hcontext _

theorem matchKeys (h : .checks ∈ parts) (code : Script) (keys signatures : List Bytes) :
    Built env Q parts (Exec.matchKeys env code keys signatures) := by
  induction keys generalizing signatures with
  | nil => cases signatures <;> exact .pure _
  | cons key keys ih =>
      cases signatures with
      | nil => exact .pure _
      | cons signature signatures =>
          exact .bind (verifySignature h code signature key) fun _ => .ite (.pure false) (ih _)

/-! ### Instructions -/

section Made

variable (hQ : HoldsOfMade Q)
include hQ

theorem pushBool (b : Bool) : Built env Q parts (onData (Stack.pushBool b)) :=
  .data (Stack.push_yields (hQ.truth b))

theorem checkSig (h : .checks ∈ parts) (script : List Instruction) :
    Built env Q parts (Exec.checkSig env script) := by
  rw [checkSig_eq_takeOne]
  refine .bind takeOne fun taken => .look (fun _ _ => rfl) fun s => ?_
  exact .bind (verifySignature h _ _ _) fun _ => pushBool hQ _

/-- What a multiple check does with the keys and signatures that it took. -/
theorem checkTaken (h : .checks ∈ parts) (script : List Instruction)
    (taken : List Bytes × List Bytes) :
    Built env Q parts (do
      let part := script.drop (← get).codeStart
      let valid ← Exec.matchKeys env (signedCode env part taken.2) taken.1 taken.2
      onData (Stack.pushBool valid)) :=
  .look (fun _ _ => rfl) fun _ => .bind (matchKeys h _ _ _) fun _ => pushBool hQ _

theorem checkMultiSig (hoperations : .operations ∈ parts) (hchecks : .checks ∈ parts)
    (script : List Instruction) : Built env Q parts (Exec.checkMultiSig env script) := by
  rw [checkMultiSig_eq_takeSeveral]
  exact .bind (takeSeveral hoperations) fun taken => checkTaken hQ hchecks script taken

theorem stackOp {op : StackOp} (h : Q op.constant) :
    Built env Q parts (onData (op.run env.numberRule)) := .data (Stack.run_yields hQ _ h)

theorem perform (script : List Instruction) (offset : Nat) {i : Instruction} (hdata : Q i.data)
    (hparts : i.op.action.parts ⊆ parts) :
    Built env Q parts (Exec.perform env script offset i) := by
  have hconstant := hQ.constant i.op
  unfold Exec.perform
  cases haction : i.op.action <;> rw [haction] at hconstant hparts
  case pushData => exact .data (Stack.push_yields hdata)
  case stack op => exact stackOp hQ hconstant
  case stackVerify op kind => exact .bind (stackOp hQ hconstant) fun _ => requireTrue kind
  case verify => exact requireTrue .verify
  case nothing => exact .pure ()
  case upgradable => exact failIf rfl
  case checkLockTime => exact lockOpcode (LockTime.checkLockTime_refusesInside env) _ _
  case checkSequence => exact lockOpcode (LockTime.checkSequence_refusesInside env) _ _
  case branch negated => exact openBranch (hparts rfl) negated
  case otherwise => exact flipBranch (hparts rfl) i.op
  case endBranch => exact closeBranch (hparts rfl) i.op
  case toAlt => exact .toAlt
  case fromAlt => exact .fromAlt
  case codeSeparator => exact .change (.codeStart (hparts rfl) _)
  case checkSig verify =>
    exact .bind (checkSig hQ (hparts rfl) script) fun _ => .ite (requireTrue _) (.pure ())
  case checkMultiSig verify =>
    have hcheck : Built env Q parts (Exec.checkMultiSig env script) :=
      checkMultiSig hQ (hparts (.inl rfl)) (hparts (.inr rfl)) script
    exact .bind hcheck fun _ => .ite (requireTrue _) (.pure ())
  case earlyReturn => exact .throw rfl
  case disabled => exact .throw rfl
  case reserved => exact .throw rfl

omit hQ in
theorem precheck (h : .operations ∈ parts) (i : Instruction) :
    Built env Q parts (Exec.precheck env i) := by
  refine .bind (failIf rfl) fun _ => ?_
  split
  · exact .bind (countOperations h _ _) fun _ => failIf rfl
  · exact failIf rfl

theorem performOpen (script : List Instruction) (offset : Nat) {i : Instruction} (hdata : Q i.data)
    (hparts : i.op.action.parts ⊆ parts) :
    Built env Q parts (Exec.performOpen env script offset i) := by
  have hperform : Built env Q parts (Exec.perform env script offset i) :=
    perform hQ script offset hdata hparts
  refine .look (fun _ _ => rfl) fun s => .ite ?_ (.ite hperform (.pure ()))
  exact .bind (failIf rfl) fun _ => hperform

end Made

theorem execute (env : Env) (script : List Instruction) (offset : Nat) (i : Instruction) :
    Built env Any Set.univ (Exec.execute env script offset i) := by
  rw [execute_eq]
  exact .bind (precheck (Set.mem_univ _) i) fun _ =>
    performOpen .any script offset trivial (Set.subset_univ _)

end Built

/-! ## What is built changes no other part -/

open State (SameBut)

theorem Change.sameBut {parts : Set Part} {f : State → State} (h : Change parts f) (s : State) :
    SameBut parts s (f s) := by
  intro p hp
  cases h with
  | branches h f => cases p <;> first | rfl | exact absurd h hp
  | codeStart h n => cases p <;> first | rfl | exact absurd h hp
  | operations h n => cases p <;> first | rfl | exact absurd h hp

variable {env : Env} {Q : Bytes → Prop} {parts : Set Part} {α : Type} {R : α → Prop}

theorem onData_sameBut (op : StackM α) : Preserves (SameBut parts) (onData op) := by
  intro s
  rw [onData_run]
  cases op s.data <;> exact .of_same fun p => by cases p <;> rfl

theorem onAlt_sameBut (op : StackM α) : Preserves (SameBut parts) (onAlt op) := by
  intro s
  rw [onAlt]
  cases op s.alt <;> exact .of_same fun p => by cases p <;> rfl

theorem Built.sameBut {x : Exec α} (h : Built env Q parts x) : Preserves (SameBut parts) x := by
  induction h with
  | pure a => exact .pure .refl a
  | throw _ => exact .throw .refl _
  | bind _ _ ih ih' => exact ih.bind .trans ih'
  | look _ _ ih => exact fun s => ih s s
  | change h => exact h.sameBut
  | data _ => exact onData_sameBut _
  | toAlt => exact (onData_sameBut _).bind .trans fun _ => onAlt_sameBut _
  | fromAlt => exact (onAlt_sameBut _).bind .trans fun _ => onData_sameBut _
  | judge h htx check =>
      intro s p hp
      cases p <;> first | rfl | exact absurd h hp

/-! ## What is built keeps the property of items -/

/-- From states whose items have the property the operation leaves only such states, and it fails
only with failures of instructions. -/
abbrev Yields (Q : Bytes → Prop) (R : α → Prop) (x : Exec α) : Prop :=
  Keeps (State.Items Q) (fun e => e.isOfInstruction = true) R x

theorem onData_yields {op : StackM α} (h : Stack.Yields Q R op) : Yields Q R (onData op) where
  of_ok hs hrun := by
    obtain ⟨data, hop, rfl⟩ := onData_eq_ok_iff.mp hrun
    obtain ⟨hdata, ha⟩ := h.of_ok hs.data hop
    exact ⟨⟨hdata, hs.alt⟩, ha⟩
  of_error hs hrun := by
    rw [onData_run] at hrun
    split at hrun
    · cases hrun
    · rename_i hop
      cases hrun
      exact h.of_error hs.data hop

theorem onAlt_yields {op : StackM α} (h : Stack.Yields Q R op) : Yields Q R (onAlt op) where
  of_ok hs hrun := by
    rw [onAlt] at hrun
    split at hrun
    · rename_i hop
      cases hrun
      obtain ⟨halt, ha⟩ := h.of_ok hs.alt hop
      exact ⟨⟨hs.data, halt⟩, ha⟩
    · cases hrun
  of_error hs hrun := by
    rw [onAlt] at hrun
    split at hrun
    · cases hrun
    · rename_i hop
      cases hrun
      exact h.of_error hs.alt hop

theorem Change.items {f : State → State} (h : Change parts f) (s : State) (hs : s.Items Q) :
    (f s).Items Q := by
  cases h <;> exact ⟨hs.data, hs.alt⟩

theorem Built.yields {x : Exec α} (h : Built env Q parts x) : Yields Q Any x := by
  induction h with
  | pure a => exact .pure trivial
  | throw h => exact .throw h
  | bind _ _ ih ih' => exact ih.bind fun a _ => ih' a
  | look _ _ ih => exact Keeps.get.bind fun s _ => ih s
  | change h => exact .modify h.items
  | data h => exact onData_yields h
  | toAlt =>
      exact (onData_yields Stack.pop_yields).bind fun _ h => onAlt_yields (Stack.push_yields h)
  | fromAlt =>
      exact (onAlt_yields Stack.pop_yields).bind fun _ h => onData_yields (Stack.push_yields h)
  | judge _ _ check =>
      constructor
      · intro s a t hs hrun
        cases hrun
        exact ⟨⟨hs.data, hs.alt⟩, trivial⟩
      · intro s e t hs hrun
        cases hrun

theorem execute_failsInside {script : List Instruction} {offset : Nat} {i : Instruction}
    {s t : State} {e : Failure} (h : execute env script offset i s = .error e t) :
    e.isOfInstruction = true :=
  (Built.execute env script offset i).yields.of_error
    ⟨fun _ _ => trivial, fun _ _ => trivial⟩ h

end Exec

end UtxoSpend
