import Mathlib
import UtxoSpend.Proofs.Spending.Verify
import UtxoSpend.Spending.SharedInput

/-!
# What is remembered is written once

Between the two halves of a call other callers may store what their sources told them.  Main
statement: in every schedule of any number of calls at most one output is stored, all that is
returned is this output, and the first attempt to store succeeds.  A call with nobody in between
does what the transaction at work does.
-/

namespace UtxoSpend

open Effect

namespace Input

variable {input : Input} {output known : Output}

theorem spent_remember (input : Input) (output : Output) :
    (input.remember output).spent = some (input.kept output) := by
  rw [remember, kept]
  cases input.spent <;> rfl

theorem remember_of_spent (h : input.spent = some known) : input.remember output = input := by
  rw [remember, h, Option.some_or, ← h]

theorem kept_of_spent (h : input.spent = some known) : input.kept output = known := by
  rw [kept, h, Option.getD_some]

theorem kept_of_none (h : input.spent = none) : input.kept output = output := by
  rw [kept, h, Option.getD_none]

end Input

namespace SharedInput

variable {ι : Type} {calls : ι → Call} {s t : SharedInput ι} {j k : ι} {p : Progress}
  {first input : Input} {output : Output}

/-! ## What the steps of others change -/

structure Grows (k : ι) (s t : SharedInput ι) : Prop where
  spent : s.input.spent ≠ none → t.input = s.input
  previous : t.input.previous = s.input.previous
  attempts : s.attempts ⊆ t.attempts
  asked : ∀ j, j ≠ k → j ∈ t.asked → j ∈ s.asked
  progress : ∀ j, j ≠ k → t.progress j = s.progress j

theorem Grows.refl (s : SharedInput ι) : Grows k s s :=
  ⟨fun _ => rfl, rfl, List.Subset.refl _, fun _ _ hj => hj, fun _ _ => rfl⟩

/-- That a caller asked its source is nothing to the others. -/
theorem Grows.of_asked (h : Grows k { s with asked := s.asked ++ [k] } t) : Grows k s t := by
  refine ⟨h.spent, h.previous, h.attempts, fun j hj hmem => ?_, h.progress⟩
  rcases List.mem_append.mp (h.asked j hj hmem) with hmem | hmem
  · exact hmem
  · exact absurd (List.mem_singleton.mp hmem) hj

theorem Grows.spent_eq (h : Grows k s t) (hspent : s.input.spent = some output) :
    t.input.spent = some output := by
  rw [h.spent (by rw [hspent]; exact Option.some_ne_none _), hspent]

/-! ## What the progress of a call tells -/

/-- What is known of a call that has got so far: it has not asked its source before its second half,
it failed only with its source, and what it returned is stored. -/
def Tells (calls : ι → Call) (s : SharedInput ι) (k : ι) : Progress → Prop
  | .waiting => k ∉ s.asked
  | .asking => k ∉ s.asked ∧ ∃ resolver, calls k = .resolve resolver
  | .resolved (.ok output) => s.input.spent = some output
  | .resolved (.error e) => ∃ resolver cause, calls k = .resolve resolver ∧
      resolver s.input.previous = .error cause ∧ e = Spending.missing s.input.previous cause
  | .seeded stored => ∃ output, calls k = .seed output ∧ ⟨k, output, stored⟩ ∈ s.attempts
  | .read seen => ∀ output, seen = some output → s.input.spent = some output

/-- The steps of others take nothing back. -/
theorem Tells.mono (h : Tells calls s j p) (hgrows : Grows k s t) (hne : j ≠ k) :
    Tells calls t j p := by
  cases p with
  | waiting => exact fun hmem => h (hgrows.asked j hne hmem)
  | asking => exact ⟨fun hmem => h.1 (hgrows.asked j hne hmem), h.2⟩
  | resolved result =>
      cases result with
      | ok output => exact hgrows.spent_eq h
      | error e =>
          obtain ⟨resolver, cause, hcall, hrefused, rfl⟩ := h
          refine ⟨resolver, cause, hcall, ?_, ?_⟩ <;> rw [hgrows.previous]
          exact hrefused
  | seeded stored =>
      obtain ⟨output, hcall, hmem⟩ := h
      exact ⟨output, hcall, hgrows.attempts hmem⟩
  | read seen => exact fun output hseen => hgrows.spent_eq (h output hseen)

/-! ## What is stored -/

def stores (s : SharedInput ι) : Nat := s.attempts.countP Attempt.stored

structure Ledger (first : Input) (s : SharedInput ι) : Prop where
  previous : s.input.previous = first.previous
  attempted : s.attempts ≠ [] → s.input.spent ≠ none
  stored : ∀ a ∈ s.attempts, a.stored = true → s.input.spent = some a.output
  stores : s.stores + (if first.spent = none then 0 else 1) =
    if s.input.spent = none then 0 else 1

theorem Ledger.store (h : Ledger first s) (k : ι) (output : Output) :
    Ledger first (s.store k output) := by
  have hspent : (s.store k output).input.spent = some (s.input.kept output) :=
    Input.spent_remember s.input output
  have hsome : (s.store k output).input.spent ≠ none := by
    rw [hspent]
    exact Option.some_ne_none _
  refine ⟨h.previous, fun _ => hsome, fun a ha hstored => ?_, ?_⟩
  · rw [hspent]
    rcases List.mem_append.mp ha with ha | ha
    · rw [Input.kept_of_spent (h.stored a ha hstored)]
    · obtain rfl := List.mem_singleton.mp ha
      rw [Input.kept_of_none (Option.isNone_iff_eq_none.mp hstored)]
  · -- Only an attempt that finds nothing stores.
    have hstores : (s.store k output).stores =
        s.stores + if s.input.spent = none then 1 else 0 := by
      simp [SharedInput.stores, SharedInput.store, List.countP_append]
    have hbefore := h.stores
    rw [hstores, if_neg hsome]
    split_ifs at hbefore ⊢ <;> omega

theorem Ledger.stores_le_one (h : Ledger first s) : s.stores ≤ 1 := by
  have hstores := h.stores
  split_ifs at hstores <;> omega

theorem Ledger.stores_eq_one (h : Ledger first s) (hnone : first.spent = none)
    (hattempts : s.attempts ≠ []) : s.stores = 1 := by
  have hstores := h.stores
  rwa [if_pos hnone, if_neg (h.attempted hattempts)] at hstores

theorem Ledger.stored_eq (h : Ledger first s) {a : Attempt ι} (ha : a ∈ s.attempts)
    (hstored : a.stored = true) : s.attempts.filter Attempt.stored = [a] := by
  have hmem : a ∈ s.attempts.filter Attempt.stored := List.mem_filter.mpr ⟨ha, hstored⟩
  have hle : (s.attempts.filter Attempt.stored).length ≤ 1 := by
    rw [← List.countP_eq_length_filter]
    exact h.stores_le_one
  have hlength : (s.attempts.filter Attempt.stored).length = 1 :=
    Nat.le_antisymm hle (List.length_pos_of_mem hmem)
  obtain ⟨only, honly⟩ := List.length_eq_one_iff.mp hlength
  rw [honly] at hmem ⊢
  rw [List.mem_singleton.mp hmem]

structure Consistent (calls : ι → Call) (first : Input) (s : SharedInput ι) : Prop where
  tells : ∀ k, Tells calls s k (s.progress k)
  ledger : Ledger first s

theorem consistent_start (calls : ι → Call) (input : Input) :
    Consistent calls input (start input) where
  tells k := List.not_mem_nil
  ledger := {
    previous := rfl
    attempted := fun h => absurd rfl h
    stored := fun a ha => absurd ha List.not_mem_nil
    stores := by
      change 0 + _ = if input.spent = none then 0 else 1
      rw [Nat.zero_add] }

/-! ## Calls that come late -/

/-- How a call ends that begins when an output is stored. -/
def Call.late (output : Output) : Call → Progress
  | resolve _ => .resolved (.ok output)
  | seed _ => .seeded false
  | read => .read (some output)

structure Late (calls : ι → Call) (k : ι) (output : Output) (s : SharedInput ι) : Prop where
  spent : s.input.spent = some output
  unasked : k ∉ s.asked
  progress : s.progress k = .waiting ∨ s.progress k = (calls k).late output

theorem Late.ne_asking (h : Late calls k output s) : s.progress k ≠ .asking := by
  rcases h.progress with hturn | hturn <;> rw [hturn]
  · exact Progress.noConfusion
  · cases calls k <;> exact Progress.noConfusion

/-! ## Steps -/

variable [DecidableEq ι]

theorem progress_reach_self (s : SharedInput ι) (k : ι) (p : Progress) :
    (s.reach k p).progress k = p := if_pos rfl

theorem progress_reach_of_ne (s : SharedInput ι) (p : Progress) (h : j ≠ k) :
    (s.reach k p).progress j = s.progress j := if_neg h

theorem settle_of_error {resolver : Resolver} {cause : TransactionError}
    (h : resolver s.input.previous = .error cause) :
    s.settle k resolver = { s with asked := s.asked ++ [k] }.reach k
      (.resolved (.error (Spending.missing s.input.previous cause))) := by
  simp only [settle, h]

theorem settle_of_ok {resolver : Resolver} (h : resolver s.input.previous = .ok output) :
    s.settle k resolver = ({ s with asked := s.asked ++ [k] }.store k output).reach k
      (.resolved (.ok (s.input.kept output))) := by
  simp only [settle, h]

inductive Acts (calls : ι → Call) (s : SharedInput ι) (k : ι) : SharedInput ι → Prop
  | hit {resolver : Resolver} {output : Output} (hcall : calls k = .resolve resolver)
      (hturn : s.progress k = .waiting) (hspent : s.input.spent = some output) :
      Acts calls s k (s.reach k (.resolved (.ok output)))
  | missed {resolver : Resolver} (hcall : calls k = .resolve resolver)
      (hturn : s.progress k = .waiting) (hspent : s.input.spent = none) :
      Acts calls s k (s.reach k .asking)
  | refused {resolver : Resolver} {cause : TransactionError} (hcall : calls k = .resolve resolver)
      (hturn : s.progress k = .asking) (hrefused : resolver s.input.previous = .error cause) :
      Acts calls s k ({ s with asked := s.asked ++ [k] }.reach k
        (.resolved (.error (Spending.missing s.input.previous cause))))
  | answered {resolver : Resolver} {output : Output} (hcall : calls k = .resolve resolver)
      (hturn : s.progress k = .asking) (hfound : resolver s.input.previous = .ok output) :
      Acts calls s k (({ s with asked := s.asked ++ [k] }.store k output).reach k
        (.resolved (.ok (s.input.kept output))))
  | seeded {output : Output} (hcall : calls k = .seed output) (hturn : s.progress k = .waiting) :
      Acts calls s k ((s.store k output).reach k (.seeded s.input.spent.isNone))
  | read (hcall : calls k = .read) (hturn : s.progress k = .waiting) :
      Acts calls s k (s.reach k (.read s.input.spent))
  | idle (hturn : s.progress k ≠ .waiting)
      (hended : ∀ resolver, calls k = .resolve resolver → s.progress k ≠ .asking) :
      Acts calls s k s

theorem acts (calls : ι → Call) (s : SharedInput ι) (k : ι) : Acts calls s k (act calls s k) := by
  unfold act
  cases hturn : s.progress k with
  | waiting =>
      cases hcall : calls k with
      | resolve resolver =>
          dsimp only [lookUp]
          cases hspent : s.input.spent with
          | none => exact .missed hcall hturn hspent
          | some output => exact .hit hcall hturn hspent
      | seed output => exact .seeded hcall hturn
      | read => exact .read hcall hturn
  | asking =>
      cases hcall : calls k with
      | resolve resolver =>
          dsimp only
          cases hanswer : resolver s.input.previous with
          | error cause =>
              rw [settle_of_error hanswer]
              exact .refused hcall hturn hanswer
          | ok output =>
              rw [settle_of_ok hanswer]
              exact .answered hcall hturn hanswer
      | seed output => exact .idle (by simp [hturn]) (by simp [hcall])
      | read => exact .idle (by simp [hturn]) (by simp [hcall])
  | resolved result => exact .idle (by simp [hturn]) (by simp [hturn])
  | seeded stored => exact .idle (by simp [hturn]) (by simp [hturn])
  | read seen => exact .idle (by simp [hturn]) (by simp [hturn])

theorem grows_reach (s : SharedInput ι) (k : ι) (p : Progress) : Grows k s (s.reach k p) :=
  ⟨fun _ => rfl, rfl, List.Subset.refl _, fun _ _ hj => hj,
    fun _ hj => progress_reach_of_ne s p hj⟩

theorem grows_store (s : SharedInput ι) (k : ι) (output : Output) (p : Progress) :
    Grows k s ((s.store k output).reach k p) := by
  refine ⟨fun hspent => ?_, rfl, List.subset_append_left _ _, fun _ _ hj => hj,
    fun _ hj => progress_reach_of_ne _ p hj⟩
  obtain ⟨known, hknown⟩ := Option.ne_none_iff_exists'.mp hspent
  exact Input.remember_of_spent hknown

theorem Acts.grows (h : Acts calls s k t) : Grows k s t := by
  cases h with
  | hit hcall hturn hspent => exact grows_reach s k _
  | missed hcall hturn hspent => exact grows_reach s k _
  | refused hcall hturn hrefused => exact .of_asked (grows_reach _ k _)
  | answered hcall hturn hfound => exact .of_asked (grows_store _ k _ _)
  | seeded hcall hturn => exact grows_store s k _ _
  | read hcall hturn => exact grows_reach s k _
  | idle hturn hended => exact .refl s

/-- A call tells the truth about its own step. -/
theorem Acts.tells (h : Acts calls s k t) (hk : Tells calls s k (s.progress k)) :
    Tells calls t k (t.progress k) := by
  cases h with
  | hit hcall hturn hspent =>
      rw [progress_reach_self]
      exact hspent
  | missed hcall hturn hspent =>
      rw [hturn] at hk
      rw [progress_reach_self]
      exact ⟨hk, _, hcall⟩
  | refused hcall hturn hrefused =>
      rw [progress_reach_self]
      exact ⟨_, _, hcall, hrefused, rfl⟩
  | answered hcall hturn hfound =>
      rw [progress_reach_self]
      exact Input.spent_remember s.input _
  | seeded hcall hturn =>
      rw [progress_reach_self]
      exact ⟨_, hcall, List.mem_append_right _ (List.mem_singleton_self _)⟩
  | read hcall hturn =>
      rw [progress_reach_self]
      exact fun output hseen => hseen
  | idle hturn hended => exact hk

theorem Ledger.reach (h : Ledger first s) (k : ι) (p : Progress) : Ledger first (s.reach k p) :=
  ⟨h.previous, h.attempted, h.stored, h.stores⟩

theorem Acts.ledger (h : Acts calls s k t) (hs : Ledger first s) : Ledger first t := by
  have hasked : Ledger first { s with asked := s.asked ++ [k] } :=
    ⟨hs.previous, hs.attempted, hs.stored, hs.stores⟩
  cases h with
  | hit hcall hturn hspent => exact hs.reach k _
  | missed hcall hturn hspent => exact hs.reach k _
  | refused hcall hturn hrefused => exact hasked.reach k _
  | answered hcall hturn hfound => exact (hasked.store k _).reach k _
  | seeded hcall hturn => exact (hs.store k _).reach k _
  | read hcall hturn => exact hs.reach k _
  | idle hturn hended => exact hs

theorem Consistent.act (h : Consistent calls first s) (k : ι) :
    Consistent calls first (act calls s k) := by
  have hacts := acts calls s k
  refine ⟨fun j => ?_, hacts.ledger h.ledger⟩
  by_cases hj : j = k
  · rw [hj]
    exact hacts.tells (h.tells k)
  · rw [hacts.grows.progress j hj]
    exact (h.tells j).mono hacts.grows hj

/-! ## Schedules -/

theorem run_append (before after : List ι) (s : SharedInput ι) :
    run calls (before ++ after) s = run calls after (run calls before s) := List.foldl_append

theorem Consistent.run (h : Consistent calls first s) (schedule : List ι) :
    Consistent calls first (run calls schedule s) := by
  induction schedule generalizing s with
  | nil => exact h
  | cons k schedule ih => exact ih (h.act k)

theorem consistent_run (calls : ι → Call) (input : Input) (schedule : List ι) :
    Consistent calls input (SharedInput.run calls schedule (start input)) :=
  (consistent_start calls input).run schedule

theorem tells_run {schedule : List ι}
    (hturn : (SharedInput.run calls schedule (start input)).progress k = p) :
    Tells calls (SharedInput.run calls schedule (start input)) k p := by
  rw [← hturn]
  exact (consistent_run calls input schedule).tells k

theorem input_run (h : s.input.spent ≠ none) (schedule : List ι) :
    (run calls schedule s).input = s.input := by
  induction schedule generalizing s with
  | nil => rfl
  | cons k schedule ih =>
      have hinput := (acts calls s k).grows.spent h
      exact (ih (by rwa [hinput])).trans hinput

theorem Acts.late_self (h : Acts calls s k t) (hs : Late calls k output s) :
    Late calls k output t := by
  have hspent := h.grows.spent_eq hs.spent
  have hreached : ∀ p, t.progress k = p → p = (calls k).late output → k ∉ t.asked →
      Late calls k output t := fun p hp hlate hasked => ⟨hspent, hasked, .inr (hp.trans hlate)⟩
  cases h with
  | hit hcall hturn hknown =>
      refine hreached _ (progress_reach_self s k _) ?_ hs.unasked
      rw [hcall, Call.late, ← Option.some.inj (hknown.symm.trans hs.spent)]
  | missed hcall hturn hnone =>
      rw [hs.spent] at hnone
      cases hnone
  | refused hcall hturn hrefused => exact absurd hturn hs.ne_asking
  | answered hcall hturn hfound => exact absurd hturn hs.ne_asking
  | seeded hcall hturn =>
      refine hreached _ (progress_reach_self _ k _) ?_ hs.unasked
      rw [hcall, Call.late, hs.spent, Option.isNone_some]
  | read hcall hturn =>
      refine hreached _ (progress_reach_self s k _) ?_ hs.unasked
      rw [hcall, Call.late, hs.spent]
  | idle hturn hended => exact hs

theorem Late.act (h : Late calls k output s) (j : ι) : Late calls k output (act calls s j) := by
  have hacts := acts calls s j
  by_cases hj : k = j
  · subst hj
    exact hacts.late_self h
  · refine ⟨hacts.grows.spent_eq h.spent, fun hmem => ?_, ?_⟩
    · exact h.unasked (hacts.grows.asked k hj hmem)
    · rw [hacts.grows.progress k hj]
      exact h.progress

theorem Late.run (h : Late calls k output s) (schedule : List ι) :
    Late calls k output (SharedInput.run calls schedule s) := by
  induction schedule generalizing s with
  | nil => exact h
  | cons j schedule ih => exact ih (h.act j)

/-! ## Calls end -/

def Progress.turnsLeft : Progress → Nat
  | waiting => 2
  | asking => 1
  | _ => 0

theorem Acts.turnsLeft (h : Acts calls s k t) (hk : Tells calls s k (s.progress k)) :
    (t.progress k).turnsLeft ≤ (s.progress k).turnsLeft - 1 := by
  cases h with
  | missed hcall hturn hspent =>
      rw [progress_reach_self, hturn]
      exact Nat.le_refl _
  | idle hturn hended =>
      cases hprogress : s.progress k with
      | waiting => exact absurd hprogress hturn
      | asking =>
          rw [hprogress] at hk
          obtain ⟨-, resolver, hcall⟩ := hk
          exact absurd hprogress (hended resolver hcall)
      | _ => exact Nat.le_refl _
  | _ =>
      rw [progress_reach_self]
      exact Nat.zero_le _

theorem Consistent.turnsLeft_run (h : Consistent calls first s) (schedule : List ι) (k : ι) :
    ((SharedInput.run calls schedule s).progress k).turnsLeft ≤
      (s.progress k).turnsLeft - schedule.count k := by
  induction schedule generalizing s with
  | nil => exact Nat.le_refl _
  | cons j schedule ih =>
      have hacts := acts calls s j
      have hrest := ih (h.act j)
      refine hrest.trans ?_
      by_cases hj : j = k
      · subst hj
        have hturn := hacts.turnsLeft (h.tells j)
        rw [List.count_cons_self]
        omega
      · rw [hacts.grows.progress k (Ne.symm hj), List.count_cons_of_ne hj]

/-! ## A call with nobody in between -/

theorem act_lookUp {resolver : Resolver} (hcall : calls k = .resolve resolver)
    (hturn : s.progress k = .waiting) : act calls s k = s.lookUp k := by
  simp only [act, hturn, hcall]

theorem act_settle {resolver : Resolver} (hcall : calls k = .resolve resolver)
    (hturn : s.progress k = .asking) : act calls s k = s.settle k resolver := by
  simp only [act, hturn, hcall]

theorem act_resolved {result : Except TransactionError Output}
    (hturn : s.progress k = .resolved result) : act calls s k = s := by
  simp only [act, hturn]

theorem run_alone_of_remembered {resolver : Resolver} (hcall : calls k = .resolve resolver)
    (hspent : input.spent = some output) :
    run calls [k, k] (start input) = (start input).reach k (.resolved (.ok output)) := by
  have hfirst : act calls (start input) k = (start input).reach k (.resolved (.ok output)) := by
    rw [act_lookUp hcall rfl, lookUp, start, hspent]
  change act calls (act calls (start input) k) k = _
  rw [hfirst, act_resolved (progress_reach_self _ k _)]

theorem run_alone_of_unknown {resolver : Resolver} (hcall : calls k = .resolve resolver)
    (hspent : input.spent = none) :
    run calls [k, k] (start input) = ((start input).reach k .asking).settle k resolver := by
  have hfirst : act calls (start input) k = (start input).reach k .asking := by
    rw [act_lookUp hcall rfl, lookUp, start, hspent]
  change act calls (act calls (start input) k) k = _
  rw [hfirst, act_settle hcall (progress_reach_self _ k _)]

/-- What a call with nobody in between has done to a transaction at work: it answers the same, the
input remembers the same, and the source was asked as often. -/
structure SameAsAlone (resolver : Resolver) (index : Nat) (w : Spending) (k : ι)
    (s : SharedInput ι) : Prop where
  progress : s.progress k = .resolved (answer (Spending.resolve resolver index w))
  input : (left (Spending.resolve resolver index w)).transaction.inputs[index]? = some s.input
  asked : (left (Spending.resolve resolver index w)).lookups =
    w.lookups ++ s.asked.map fun _ => s.input.previous

/-- Both halves of a call one after the other do what resolving does. -/
theorem run_alone {resolver : Resolver} {index : Nat} {w : Spending}
    (hcall : calls k = .resolve resolver) (hinput : w.transaction.inputs[index]? = some input) :
    SameAsAlone resolver index w k (run calls [k, k] (start input)) := by
  cases hspent : input.spent with
  | some output =>
      rw [run_alone_of_remembered hcall hspent]
      have hresolve : Spending.resolve resolver index w = .ok output w :=
        Spending.resolve_of_remembered hinput hspent
      refine ⟨?_, ?_, ?_⟩ <;> rw [hresolve]
      · exact progress_reach_self _ k _
      · exact hinput
      · exact (List.append_nil _).symm
  | none =>
      rw [run_alone_of_unknown hcall hspent]
      cases hanswer : resolver input.previous with
      | error cause =>
          have hresolve := Spending.resolve_of_missing hinput hspent hanswer
          rw [settle_of_error hanswer]
          refine ⟨?_, ?_, ?_⟩ <;> rw [hresolve]
          · exact progress_reach_self _ k _
          · exact hinput
          · rfl
      | ok output =>
          have hresolve := Spending.resolve_of_found hinput hspent hanswer
          have hkept : (start input : SharedInput ι).input.kept output = output :=
            Input.kept_of_none hspent
          rw [settle_of_ok hanswer]
          refine ⟨?_, ?_, ?_⟩ <;> rw [hresolve]
          · rw [progress_reach_self]
            exact congrArg (Progress.resolved ∘ Except.ok) hkept
          · exact Transaction.getElem?_updateInput hinput (·.remember output)
          · rfl

/-! ## In every schedule -/

/-- What holds of calls on an input that nobody has begun, whatever the sources answer. -/
structure WritesOnce (calls : ι → Call) (input : Input) : Prop where
  once : ∀ schedule, (run calls schedule (start input)).stores ≤ 1
  /-- It is the first that is offered to an input without one. -/
  first : input.spent = none → ∀ schedule, (run calls schedule (start input)).attempts ≠ [] →
    (run calls schedule (start input)).stores = 1
  stays : ∀ before after, (run calls before (start input)).input.spent ≠ none →
    (run calls (before ++ after) (start input)).input = (run calls before (start input)).input
  resolved : ∀ schedule k output,
    (run calls schedule (start input)).progress k = .resolved (.ok output) →
      (run calls schedule (start input)).input.spent = some output
  seen : ∀ schedule k output,
    (run calls schedule (start input)).progress k = .read (some output) →
      (run calls schedule (start input)).input.spent = some output
  /-- Who is told that its output was stored is the only one. -/
  seeded : ∀ schedule k, (run calls schedule (start input)).progress k = .seeded true →
    ∃ output, calls k = .seed output ∧
      (run calls schedule (start input)).attempts.filter Attempt.stored = [⟨k, output, true⟩] ∧
      (run calls schedule (start input)).input.spent = some output
  /-- Who begins when an output is stored gets it, and never asks its source. -/
  late : ∀ before after k output, (run calls before (start input)).progress k = .waiting →
    (run calls before (start input)).input.spent = some output →
      Late calls k output (run calls (before ++ after) (start input))
  /-- Whose source fails stores nothing and reports a missing output. -/
  refused : ∀ before k resolver cause, calls k = .resolve resolver →
    resolver input.previous = .error cause →
    (run calls before (start input)).progress k = .asking →
      (run calls (before ++ [k]) (start input)).input = (run calls before (start input)).input ∧
      (run calls (before ++ [k]) (start input)).attempts =
        (run calls before (start input)).attempts ∧
      (run calls (before ++ [k]) (start input)).progress k =
        .resolved (.error (Spending.missing input.previous cause))
  errors : ∀ schedule k e,
    (run calls schedule (start input)).progress k = .resolved (.error e) → e.isMissingOutput
  ends : ∀ schedule k, 2 ≤ schedule.count k →
    ((run calls schedule (start input)).progress k).turnsLeft = 0
  /-- With nobody in between a call does what resolving does. -/
  alone : ∀ k resolver index (w : Spending), calls k = .resolve resolver →
    w.transaction.inputs[index]? = some input →
      SameAsAlone resolver index w k (run calls [k, k] (start input))

theorem refused_run (input : Input) (before : List ι) {resolver : Resolver}
    {cause : TransactionError} (hcall : calls k = .resolve resolver)
    (hrefused : resolver input.previous = .error cause)
    (hturn : (run calls before (start input)).progress k = .asking) :
    run calls (before ++ [k]) (start input) =
      { run calls before (start input) with
        asked := (run calls before (start input)).asked ++ [k] }.reach k
        (.resolved (.error (Spending.missing input.previous cause))) := by
  have hprevious := (consistent_run calls input before).ledger.previous
  rw [run_append]
  change act calls (run calls before (start input)) k = _
  rw [← hprevious] at hrefused ⊢
  rw [act_settle hcall hturn, settle_of_error hrefused]

/-- Whatever the schedule and the sources, an input remembers one output and all callers get it. -/
theorem writes_once (calls : ι → Call) (input : Input) : WritesOnce calls input where
  once schedule := (consistent_run calls input schedule).ledger.stores_le_one
  first hnone schedule hattempts :=
    (consistent_run calls input schedule).ledger.stores_eq_one hnone hattempts
  stays before after hspent := by
    rw [run_append]
    exact input_run hspent after
  resolved schedule k output hturn := tells_run hturn
  seen schedule k output hturn := tells_run hturn output rfl
  seeded schedule k hturn := by
    have hledger := (consistent_run calls input schedule).ledger
    obtain ⟨output, hcall, hmem⟩ := tells_run hturn
    exact ⟨output, hcall, hledger.stored_eq hmem rfl, hledger.stored _ hmem rfl⟩
  late before after k output hturn hspent := by
    have hlate : Late calls k output (run calls before (start input)) :=
      ⟨hspent, tells_run hturn, .inl hturn⟩
    rw [run_append]
    exact hlate.run after
  refused before k resolver cause hcall hrefused hturn := by
    rw [refused_run input before hcall hrefused hturn]
    exact ⟨rfl, rfl, progress_reach_self _ k _⟩
  errors schedule k e hturn := by
    obtain ⟨resolver, cause, -, -, rfl⟩ := tells_run hturn
    exact Spending.isMissingOutput_missing _ cause
  ends schedule k hcount := by
    have hturns := (consistent_start calls input).turnsLeft_run schedule k
    have hbegin : ((start input : SharedInput ι).progress k).turnsLeft = 2 := rfl
    omega
  alone k resolver index w hcall hinput := run_alone hcall hinput

def race : Fin 5 → Call :=
  ![.resolve fun _ => .ok ⟨1, .empty⟩, .resolve fun _ => .ok ⟨2, .empty⟩,
    .resolve fun point => .error (.unknownOutput point), .seed ⟨3, .empty⟩, .read]

/-- Three callers look up before anything is stored.  The second is the first to hear from its
source, so the first gets the output of the second, and what the fourth offers comes too late. -/
theorem writes_once_race :
    let input := Input.unsigned ⟨⟨List.replicate 32 0, rfl⟩, 0⟩
    let s := run race [0, 1, 2, 1, 0, 2, 3, 4] (start input)
    s.progress 0 = .resolved (.ok ⟨2, .empty⟩) ∧ s.progress 3 = .seeded false ∧
      s.progress 4 = .read (some ⟨2, .empty⟩) ∧ s.input.spent = some ⟨2, .empty⟩ ∧
      s.stores = 1 := by
  intro input s
  have hturn : s.progress 0 = .resolved (.ok ⟨2, .empty⟩) := rfl
  have hattempts : s.attempts ≠ [] := List.cons_ne_nil _ _
  exact ⟨hturn, rfl, rfl, (writes_once race input).resolved _ 0 _ hturn,
    (writes_once race input).first rfl _ hattempts⟩

end SharedInput

end UtxoSpend
