import Mathlib
import UtxoSpend.Proofs.Machine.Frame
import UtxoSpend.Proofs.Machine.Loading

/-!
# Resource limits hold all along a run

Operations are counted and the depth of the stacks is looked at, the length of items is looked at
only where they are pushed, and the size of a redeem script nowhere.  Main statement: after every
step of every run the operations of the running script, the keys of multiple checks included, the
depth, the items on all stacks and the scripts are within the limits.
-/

namespace UtxoSpend

open Effect

def Limits.itemLength (limits : Limits) : Nat := max limits.elementSize longestHash

namespace Exec

variable {env : Env} {n : Nat} {i : Instruction} {s t : State}

/-! ## What is counted -/

def announcedKeys (rule : NumberRule) : Action → Stack → Nat
  | .checkMultiSig _, item :: _ =>
    match Number.decode rule item with
    | .ok count => count.toInt.toNat
    | .error _ => 0
  | _, _ => 0

/-- How many operations an instruction counts for: itself, unless it pushes, and the keys of a
multiple check, if it is performed. -/
def cost (env : Env) (i : Instruction) (s : State) : Nat :=
  (if i.op.isCounted then 1 else 0) +
    if s.isExecuting then announcedKeys env.numberRule i.op.action s.data else 0

theorem announcedKeys_eq_zero {rule : NumberRule} {action : Action} {stack : Stack}
    (h : ∀ verify, action ≠ .checkMultiSig verify) : announcedKeys rule action stack = 0 := by
  cases action with
  | checkMultiSig verify => exact absurd rfl (h verify)
  | _ => rfl

structure InBudget (env : Env) (n : Nat) (s : State) : Prop where
  operations : s.operations = n
  counted : n ≤ env.limits.operations
  data : s.data.Small env.limits.itemLength
  alt : s.alt.Small env.limits.itemLength

theorem made_within (limits : Limits) :
    HoldsOfMade fun item => item.length ≤ limits.itemLength := .length_le (Nat.le_max_right _ _)

theorem Built.inBudget {α : Type} {x : Exec α} {a : α}
    (hx : Built env (fun item => item.length ≤ env.limits.itemLength) {.operations}ᶜ x)
    (h : InBudget env n s) (hrun : x s = .ok a t) : InBudget env n t := by
  obtain ⟨hitems, -⟩ := hx.yields.of_ok ⟨h.data, h.alt⟩ hrun
  have hsame : t.operations = s.operations := hx.sameBut.of_ok hrun .operations (by simp)
  exact ⟨hsame.trans h.operations, h.counted, hitems.data, hitems.alt⟩

/-! ## Counting -/

theorem countOperations_inBudget {count : Nat} (h : InBudget env n s)
    (hrun : countOperations env.limits count s = .ok () t) : InBudget env (n + count) t := by
  obtain ⟨hlimit, rfl⟩ := countOperations_eq_ok hrun
  rw [h.operations] at hlimit
  exact ⟨by rw [h.operations], hlimit, h.data, h.alt⟩

/-- A multiple check counts the keys that it takes. -/
theorem takeSeveral_inBudget {keys signatures : List Bytes} (verify : Bool) (h : InBudget env n s)
    (hrun : takeSeveral env s = .ok (keys, signatures) t) :
    InBudget env (n + announcedKeys env.numberRule (.checkMultiSig verify) s.data) t := by
  obtain ⟨keyCount, signatureCount, dummy, below, count, -, hstack, hread, hcount, -, -, -, hlimit,
    rfl⟩ := takeSeveral_eq_ok hrun
  have hannounced :
      announcedKeys env.numberRule (.checkMultiSig verify) s.data = keys.length := by
    simp [announcedKeys, hstack, hread, hcount]
  have hbelow : ∀ item ∈ below, item ∈ s.data := by
    intro item hitem
    rw [hstack]
    simp [hitem]
  rw [hannounced]
  rw [h.operations] at hlimit
  exact ⟨by rw [h.operations], hlimit, fun item hitem => h.data item (hbelow item hitem), h.alt⟩

theorem checkMultiSig_inBudget {script : List Instruction} (verify : Bool) (h : InBudget env n s)
    (hrun : checkMultiSig env script s = .ok () t) :
    InBudget env (n + announcedKeys env.numberRule (.checkMultiSig verify) s.data) t := by
  rw [checkMultiSig_eq_takeSeveral] at hrun
  obtain ⟨taken, u, htake, hcheck⟩ := bind_eq_ok.mp hrun
  have hu := takeSeveral_inBudget verify h htake
  exact (Built.checkTaken (made_within env.limits) (by simp) script taken).inBudget hu hcheck

/-! ## Instructions -/

theorem parts_of_single {action : Action} (h : ∀ verify, action ≠ .checkMultiSig verify) :
    action.parts ⊆ {.operations}ᶜ := by
  cases action <;> simp_all [Action.parts]

theorem perform_inBudget {script : List Instruction} {offset : Nat} (h : InBudget env n s)
    (hdata : i.data.length ≤ env.limits.elementSize)
    (hrun : perform env script offset i s = .ok () t) :
    InBudget env (n + announcedKeys env.numberRule i.op.action s.data) t := by
  by_cases hmulti : ∃ verify, i.op.action = .checkMultiSig verify
  · obtain ⟨verify, haction⟩ := hmulti
    rw [perform, haction] at hrun
    rw [haction]
    obtain ⟨_, u, hcheck, hverify⟩ := bind_eq_ok.mp hrun
    have hu := checkMultiSig_inBudget verify h hcheck
    exact (Built.ite (.requireTrue _) (.pure ())).inBudget hu hverify
  · rw [not_exists] at hmulti
    rw [announcedKeys_eq_zero hmulti]
    have hitem : i.data.length ≤ env.limits.itemLength := hdata.trans (Nat.le_max_left _ _)
    exact (Built.perform (made_within env.limits) script offset hitem
      (parts_of_single hmulti)).inBudget h hrun

theorem precheck_inBudget (h : InBudget env n s) (hrun : precheck env i s = .ok () t) :
    i.data.length ≤ env.limits.elementSize ∧
      InBudget env (n + if i.op.isCounted then 1 else 0) t := by
  obtain ⟨_, u, hsize, hrest⟩ := bind_eq_ok.mp hrun
  obtain ⟨hsmall, rfl⟩ := failIf_eq_ok hsize
  refine ⟨Nat.le_of_not_lt (of_decide_eq_false hsmall), ?_⟩
  split at hrest
  · rename_i hcounted
    obtain ⟨_, v, hcount, hdisabled⟩ := bind_eq_ok.mp hrest
    obtain ⟨-, rfl⟩ := failIf_eq_ok hdisabled
    rw [if_pos hcounted]
    exact countOperations_inBudget h hcount
  · rename_i hcounted
    obtain ⟨-, rfl⟩ := failIf_eq_ok hrest
    rw [if_neg hcounted]
    exact h

theorem performOpen_inBudget {script : List Instruction} {offset : Nat} (h : InBudget env n s)
    (hdata : i.data.length ≤ env.limits.elementSize)
    (hrun : performOpen env script offset i s = .ok () t) :
    InBudget env (n + if s.isExecuting then announcedKeys env.numberRule i.op.action s.data else 0)
      t := by
  rw [performOpen, get_bind_run] at hrun
  split_ifs at hrun with hexecuting hconditional
  · obtain ⟨_, u, hminimal, hperform⟩ := bind_eq_ok.mp hrun
    obtain ⟨-, rfl⟩ := failIf_eq_ok hminimal
    rw [if_pos hexecuting]
    exact perform_inBudget h hdata hperform
  · -- No multiple check runs in a branch that does not run.
    obtain ⟨-, hchecks⟩ := action_of_isConditional hconditional
    have hsingle : ∀ verify, i.op.action ≠ .checkMultiSig verify := by
      intro verify haction
      rw [haction] at hchecks
      cases hchecks
    have hperformed := perform_inBudget h hdata hrun
    rw [announcedKeys_eq_zero hsingle] at hperformed
    rw [if_neg hexecuting]
    exact hperformed
  · cases hrun
    rw [if_neg hexecuting]
    exact h

/-- An instruction counts for what it costs, and stays within the limits. -/
theorem execute_inBudget {script : List Instruction} {offset : Nat} (h : InBudget env n s)
    (hrun : execute env script offset i s = .ok () t) : InBudget env (n + cost env i s) t := by
  rw [execute_eq] at hrun
  obtain ⟨_, u, hprecheck, hperform⟩ := bind_eq_ok.mp hrun
  obtain ⟨hdata, hu⟩ := precheck_inBudget h hprecheck
  obtain ⟨operations, rfl⟩ := precheck_eq_ok hprecheck
  rw [cost, ← Nat.add_assoc]
  exact performOpen_inBudget (s := { s with operations := operations }) hu hdata hperform

/-! ## Pushed items -/

theorem length_of_pushedItem {i : Instruction} {item : Bytes} (h : pushedItem env i = .ok item) :
    item.length ≤ i.encode.length := by
  have hdata : i.data.length ≤ i.encode.length := by
    rw [Instruction.length_encode]
    omega
  unfold pushedItem at h
  split_ifs at h
  split at h
  · cases h
    exact hdata
  · rename_i constant haction
    cases h
    have hconstant := length_constant_le i.op
    rw [haction] at hconstant
    rw [Instruction.length_encode]
    exact le_trans hconstant (by omega)
  · cases h

theorem items_of_pushOnly {script is : List Instruction} {offset : Nat} {s t : State}
    (hpush : Instruction.isPushOnly is = true) (hbranches : s.branches = [])
    (hrun : runFrom env script offset is s = .ok () t) :
    ∀ item ∈ t.data, item ∈ s.data ∨ item.length ≤ (is.flatMap Instruction.encode).length := by
  induction is generalizing offset s with
  | nil =>
      cases hrun
      exact fun item hitem => .inl hitem
  | cons i is ih =>
      simp only [Instruction.isPushOnly, List.all_cons, Bool.and_eq_true,
        decide_eq_true_eq] at hpush
      obtain ⟨u, hexec, -, hrest⟩ := runFrom_cons_eq_ok_iff.mp hrun
      rw [execute_of_pushOnly hpush.1 (isExecuting_of_branches hbranches)] at hexec
      cases hpushed : pushedItem env i with
      | error e =>
          rw [hpushed] at hexec
          cases hexec
      | ok pushed =>
          rw [hpushed] at hexec
          cases hexec
          have hlength := length_of_pushedItem hpushed
          intro item hitem
          rw [List.flatMap_cons, List.length_append]
          have hrest' :=
            ih (s := { s with data := pushed :: s.data }) hpush.2 hbranches hrest item hitem
          rcases hrest' with hmem | hle
          · rcases List.mem_cons.mp hmem with rfl | hmem
            · right
              omega
            · exact .inl hmem
          · right
            omega

end Exec

namespace Machine

open Exec

variable {env : Env} {unlocking locking : Script} {m m' : Machine} {past : List Machine}

/-- The size of a redeem script is nowhere checked, but the script that pushes it is as large. -/
theorem length_le_of_leftOnTop {redeem : Bytes} (hcalls : callsForRedeem env locking = true)
    (h : LeftOnTop env unlocking locking redeem) : redeem.length ≤ unlocking.size := by
  obtain ⟨m, below, hunlocked, hdata⟩ := h
  obtain ⟨first, second, hstart, hrun⟩ := runScript_of_unlocked hunlocked
  obtain ⟨u, hran, -, hstate⟩ := runScript_eq_ok_iff.mp hrun
  have hmem : redeem ∈ u.data := by
    have hsame : u.data = m.state.data := by rw [hstate]; rfl
    rw [hsame, hdata]
    exact List.mem_cons_self
  have hbytes := (Instruction.parse_eq_ok_iff.mp hstart.unlockingParses).2
  rcases items_of_pushOnly (hstart.redeemPushOnly hcalls) rfl hran redeem hmem with hnone | hle
  · cases hnone
  · rwa [← hbytes] at hle

/-! ## Runs -/

def costOfNext (env : Env) (m : Machine) : Nat :=
  match m.next? with
  | none => 0
  | some i => cost env i m.state

/-- How many operations were counted in the script that runs. -/
def countedIn (env : Env) (past : List Machine) (m : Machine) : Nat :=
  ((past.filter fun p => p.scriptIndex == m.scriptIndex).map (costOfNext env)).sum

theorem countedIn_cons {p : Machine} (hindex : p.scriptIndex = m.scriptIndex) :
    countedIn env (p :: past) m = costOfNext env p + countedIn env past m := by
  simp [countedIn, hindex]

theorem countedIn_eq_zero (h : ∀ p ∈ past, p.scriptIndex < m.scriptIndex) :
    countedIn env past m = 0 := by
  have hnone : past.filter (fun p => p.scriptIndex == m.scriptIndex) = [] := by
    refine List.filter_eq_nil_iff.mpr fun p hp => ?_
    have hlt := h p hp
    simp only [beq_iff_eq]
    omega
  rw [countedIn, hnone]
  rfl

structure Bounded (env : Env) (past : List Machine) (m : Machine) : Prop where
  state : InBudget env (countedIn env past m) m.state
  depth : m.state.depth ≤ env.limits.stackItems
  kept : m.unlocked.Small env.limits.itemLength
  keptDepth : m.unlocked.length ≤ env.limits.stackItems

theorem small_nil (limit : Nat) : Stack.Small limit [] := fun _ h => by cases h

theorem bounded_start (h : start env unlocking locking = .ok m) : Bounded env [] m := by
  obtain ⟨first, second, -, rfl⟩ := start_eq_ok_iff.mp h
  exact {
    state := ⟨rfl, Nat.zero_le _, small_nil _, small_nil _⟩
    depth := Nat.zero_le _
    kept := small_nil _
    keptDepth := Nat.zero_le _ }

theorem Bounded.passed {i : Instruction} {s : State} (h : Bounded env past m)
    (hnext : m.next? = some i)
    (hexec : executeBounded env m.script m.offset i m.state = .ok () s) :
    Bounded env (m :: past) (m.passed s) := by
  obtain ⟨hexec, hdepth⟩ := executeBounded_eq_ok_iff.mp hexec
  have hcost : costOfNext env m = cost env i m.state := by rw [costOfNext, hnext]
  refine ⟨?_, hdepth, h.kept, h.keptDepth⟩
  rw [countedIn_cons (show m.scriptIndex = (m.passed s).scriptIndex from rfl), hcost, Nat.add_comm]
  exact execute_inBudget h.state hexec

theorem Bounded.prepareRedeem (h : Bounded env past m)
    (hprepare : Machine.prepareRedeem env m.advance = .ok m') :
    InBudget env 0 m'.state ∧ m'.state.depth ≤ env.limits.stackItems ∧
      m'.unlocked.Small env.limits.itemLength ∧ m'.unlocked.length ≤ env.limits.stackItems := by
  have hstarts : ∀ data : Stack, data.Small env.limits.itemLength →
      InBudget env 0 { m.state.nextScript with data := data } :=
    fun data hdata => ⟨rfl, Nat.zero_le _, hdata, small_nil _⟩
  have hdata := h.state.data
  have hdepth : m.state.data.length ≤ env.limits.stackItems :=
    le_trans (Nat.le_add_right _ _) h.depth
  obtain rfl | ⟨-, rfl⟩ | ⟨-, hqueue⟩ := prepareRedeem_eq_ok hprepare
  · exact ⟨hstarts _ hdata, hdepth, h.kept, h.keptDepth⟩
  · exact ⟨hstarts _ hdata, hdepth, hdata, hdepth⟩
  · obtain ⟨redeem, below, third, hkept, -, rfl⟩ := queueRedeem_eq_ok hqueue
    have hkept' : m.unlocked = redeem :: below := hkept
    have hsmall := h.kept
    have hlength := h.keptDepth
    rw [hkept'] at hsmall hlength
    refine ⟨hstarts _ (List.forall_mem_cons.mp hsmall).2, ?_, small_nil _, Nat.zero_le _⟩
    exact le_trans (Nat.le_succ _) hlength

theorem Bounded.endScript {done : Bool} (h : Bounded env past m)
    (hpast : ∀ p ∈ past, p.scriptIndex ≤ m.scriptIndex)
    (hend : Machine.endScript env m = .ok done m') : Bounded env past m' := by
  have hlt := scriptIndex_lt_of_endScript hend
  have hnew : countedIn env past m' = 0 :=
    countedIn_eq_zero fun p hp => Nat.lt_of_le_of_lt (hpast p hp) hlt
  obtain ⟨next, hprepare, hnext, -⟩ := endScript_eq_ok hend
  obtain ⟨hstate, hdepth, hkept, hkeptDepth⟩ := h.prepareRedeem hprepare
  have hsame : m'.state = next.state ∧ m'.unlocked = next.unlocked := by
    obtain heq | heq := skipEmpty_eq next <;> rw [hnext, heq] <;> exact ⟨rfl, rfl⟩
  exact {
    state := by rwa [hnew, hsame.1]
    depth := by rwa [hsame.1]
    kept := by rwa [hsame.2]
    keptDepth := by rwa [hsame.2] }

theorem Run.bounded (h : Run env unlocking locking past m) : Bounded env past m := by
  induction h with
  | start h => exact bounded_start h
  | step run h ih =>
      obtain ⟨i, s, hnext, hexec, ⟨-, -, rfl⟩ | ⟨-, hend⟩⟩ := of_step_eq_ok h
      · exact ih.passed hnext hexec
      · exact (ih.passed hnext hexec).endScript (fun p hp => run.scriptIndex_le hp) hend

theorem size_unparse_of_parse {bs : Bytes} {is : List Instruction}
    (h : Instruction.parse bs = .ok is) : (Instruction.unparse is).size = bs.length := by
  rw [(Instruction.parse_eq_ok_iff.mp h).2]
  rfl

theorem Loads.size_le (h : Loads env unlocking locking m) :
    ∀ script ∈ m.scripts, (Instruction.unparse script).size ≤ env.limits.scriptSize := by
  have hloaded : ∀ {first second : List Instruction},
      Startable env unlocking locking first second →
      (Instruction.unparse first).size ≤ env.limits.scriptSize ∧
        (Instruction.unparse second).size ≤ env.limits.scriptSize := by
    intro first second hstart
    rw [size_unparse_of_parse hstart.unlockingParses, size_unparse_of_parse hstart.lockingParses]
    exact ⟨hstart.unlockingSize, hstart.lockingSize⟩
  cases h with
  | both hstart hscripts =>
      rw [hscripts]
      simpa using hloaded hstart
  | redeem hstart hcalls htop hparse hindex hscripts =>
      have hredeem := (length_le_of_leftOnTop hcalls htop).trans hstart.unlockingSize
      rw [← size_unparse_of_parse hparse] at hredeem
      rw [hscripts]
      simpa using ⟨(hloaded hstart).1, (hloaded hstart).2, hredeem⟩

structure WithinLimits (env : Env) (past : List Machine) (m : Machine) : Prop where
  operations : m.state.operations = countedIn env past m
  operations_le : m.state.operations ≤ env.limits.operations
  depth : m.state.depth ≤ env.limits.stackItems
  items : ∀ item ∈ m.state.data ++ m.state.alt ++ m.unlocked,
    item.length ≤ max env.limits.elementSize 32
  scripts : ∀ script ∈ m.scripts, (Instruction.unparse script).size ≤ env.limits.scriptSize

/-- A run never exceeds the limits, wherever it stands. -/
theorem run_withinLimits (h : Run env unlocking locking past m) :
    WithinLimits env past m ∧
      (env.limits = {} → ∀ item ∈ m.state.data ++ m.state.alt ++ m.unlocked,
        item.length ≤ 520) := by
  have hbounded := h.bounded
  have hitems : ∀ item ∈ m.state.data ++ m.state.alt ++ m.unlocked,
      item.length ≤ max env.limits.elementSize 32 := by
    intro item hitem
    rcases List.mem_append.mp hitem with hitem | hitem
    · rcases List.mem_append.mp hitem with hitem | hitem
      · exact hbounded.state.data item hitem
      · exact hbounded.state.alt item hitem
    · exact hbounded.kept item hitem
  refine ⟨?_, fun hlimits => ?_⟩
  · exact {
      operations := hbounded.state.operations
      operations_le := hbounded.state.operations ▸ hbounded.state.counted
      depth := hbounded.depth
      items := hitems
      scripts := h.layout.loads.size_le }
  · rw [hlimits] at hitems
    exact hitems

/-- A check of one signature against one key, and an opcode that does nothing. -/
def oneOfOne : Script := ⟨[0x51, 0x51, 0x51, 0xae, 0x61]⟩

/-- Behind the check, which counts as itself and as its key. -/
theorem run_withinLimits_oneOfOne :
    ∃ past m, Run trustingEnv ⟨[0x00, 0x51]⟩ oneOfOne past m ∧ trustingEnv.limits = {} ∧
      m.state.operations = 2 ∧ WithinLimits trustingEnv past m ∧
      ∀ item ∈ m.state.data ++ m.state.alt ++ m.unlocked, item.length ≤ 520 := by
  have hstartable : Startable trustingEnv ⟨[0x00, 0x51]⟩ oneOfOne [⟨0x00, []⟩, ⟨0x51, []⟩]
      [⟨0x51, []⟩, ⟨0x51, []⟩, ⟨0x51, []⟩, ⟨0xae, []⟩, ⟨0x61, []⟩] :=
    ⟨by decide, by decide, by decide, by decide, Instruction.parse_eq_ok_iff.mpr ⟨by decide, rfl⟩,
      Instruction.parse_eq_ok_iff.mpr ⟨by decide, rfl⟩, by decide, by decide⟩
  have hstart := start_eq_ok_iff.mpr ⟨_, _, hstartable, rfl⟩
  generalize hm : initial trustingEnv ⟨[0x00, 0x51]⟩ oneOfOne [⟨0x00, []⟩, ⟨0x51, []⟩]
    [⟨0x51, []⟩, ⟨0x51, []⟩, ⟨0x51, []⟩, ⟨0xae, []⟩, ⟨0x61, []⟩] = m at hstart
  have hcounted : (answer (steps trustingEnv 6 m)).toOption = some false ∧
      (left (steps trustingEnv 6 m)).state.operations = 2 := by
    rw [← hm]
    decide +kernel
  cases hsteps : steps trustingEnv 6 m with
  | error e m' =>
      rw [hsteps] at hcounted
      cases hcounted.1
  | ok done m' =>
      rw [hsteps] at hcounted
      obtain ⟨past, hrun⟩ := (Run.start hstart).of_steps hsteps
      obtain ⟨hwithin, hdefault⟩ := run_withinLimits hrun
      exact ⟨past, m', hrun, rfl, hcounted.2, hwithin, hdefault rfl⟩

end Machine

end UtxoSpend
