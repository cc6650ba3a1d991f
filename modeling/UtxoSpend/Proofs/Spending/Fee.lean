import Mathlib
import UtxoSpend.Proofs.Spending.Queries

/-!
# Exact sums of amounts

Amounts are added in 64 bits and subtracted in 128, and the fee has 64 bits with a sign.  Main
statement: a sum is refused exactly if the sum of all amounts does not fit, a fee exactly if one of
the sums or their difference does not, and what is not refused is exact; but before anything is
added, every output that is spent has to be found.
-/

namespace UtxoSpend

open Effect

namespace Spending

/-! ## Sums -/

def exactSum (amounts : List UInt64) : Nat := (amounts.map UInt64.toNat).sum

def worth (outputs : List Output) : Nat := exactSum (outputs.map Output.amount)

theorem addAmounts?_eq_some_iff {a b c : UInt64} :
    addAmounts? a b = some c ↔ c.toNat = a.toNat + b.toNat := by
  have hc := c.toNat_lt
  unfold addAmounts?
  split_ifs with hfits
  · change _ < 2 ^ 64 at hfits
    rw [Option.some_inj, ← UInt64.toNat_inj, UInt64.toNat_add, Nat.mod_eq_of_lt hfits, eq_comm]
  · change ¬_ < 2 ^ 64 at hfits
    constructor
    · intro h
      cases h
    · intro h
      omega

theorem addAmounts?_eq_none_iff {a b : UInt64} :
    addAmounts? a b = none ↔ 2 ^ 64 ≤ a.toNat + b.toNat := by
  unfold addAmounts?
  split_ifs with hfits
  · exact ⟨nofun, fun h => absurd hfits (Nat.not_lt.mpr h)⟩
  · exact ⟨fun _ => Nat.not_lt.mp hfits, fun _ => rfl⟩

/-- A running total is exact, and there is one exactly if the whole sum fits. -/
theorem foldlM_addAmounts?_eq_some_iff (amounts : List UInt64) (start total : UInt64) :
    amounts.foldlM addAmounts? start = some total ↔
      total.toNat = start.toNat + exactSum amounts := by
  unfold exactSum
  induction amounts generalizing start with
  | nil => simp [← UInt64.toNat_inj, eq_comm]
  | cons a amounts ih =>
      rw [List.foldlM_cons, List.map_cons, List.sum_cons]
      cases hsum : addAmounts? start a with
      | none =>
          -- The sum has left its range already, and the rest makes it larger still.
          have habove := addAmounts?_eq_none_iff.mp hsum
          have htotal := total.toNat_lt
          exact ⟨nofun, fun h => by omega⟩
      | some sum =>
          have hexact := addAmounts?_eq_some_iff.mp hsum
          change amounts.foldlM addAmounts? sum = some total ↔ _
          rw [ih, hexact, Nat.add_assoc]

theorem sumAmounts?_eq_some_iff {amounts : List UInt64} {total : UInt64} :
    sumAmounts? amounts = some total ↔ total.toNat = exactSum amounts := by
  rw [sumAmounts?, foldlM_addAmounts?_eq_some_iff]
  change _ = 0 + _ ↔ _
  rw [Nat.zero_add]

theorem exists_sumAmounts? {amounts : List UInt64} (h : exactSum amounts < 2 ^ 64) :
    ∃ total, sumAmounts? amounts = some total :=
  ⟨.ofNat (exactSum amounts), sumAmounts?_eq_some_iff.mpr (UInt64.toNat_ofNat_of_lt' h)⟩

theorem sumAmounts?_eq_none_iff {amounts : List UInt64} :
    sumAmounts? amounts = none ↔ 2 ^ 64 ≤ exactSum amounts := by
  constructor
  · intro h
    by_contra hfits
    obtain ⟨total, hsum⟩ := exists_sumAmounts? (Nat.not_le.mp hfits)
    rw [hsum] at h
    cases h
  · intro h
    cases hsum : sumAmounts? amounts with
    | none => rfl
    | some total =>
        have hexact := sumAmounts?_eq_some_iff.mp hsum
        have hlt := total.toNat_lt
        omega

theorem totalOf_eq_ok_iff {side : AmountDefect} {amounts : List UInt64} {total : UInt64} :
    totalOf side amounts = .ok total ↔ total.toNat = exactSum amounts := by
  rw [← sumAmounts?_eq_some_iff, totalOf]
  cases sumAmounts? amounts <;> simp

theorem totalOf_eq_error_iff {side : AmountDefect} {amounts : List UInt64} :
    totalOf side amounts = .error (.amount side) ↔ 2 ^ 64 ≤ exactSum amounts := by
  rw [← sumAmounts?_eq_none_iff, totalOf]
  cases sumAmounts? amounts <;> simp

theorem exists_totalOf (side : AmountDefect) {amounts : List UInt64}
    (h : exactSum amounts < 2 ^ 64) :
    ∃ total, totalOf side amounts = .ok total ∧ total.toNat = exactSum amounts := by
  obtain ⟨total, hsum⟩ := exists_sumAmounts? h
  have hexact := sumAmounts?_eq_some_iff.mp hsum
  exact ⟨total, totalOf_eq_ok_iff.mpr hexact, hexact⟩

/-! ## Differences -/

structure FeeFits (spent created : Nat) : Prop where
  spent_lt : spent < 2 ^ 64
  created_lt : created < 2 ^ 64
  le_difference : -2 ^ 63 ≤ (spent : Int) - created
  difference_lt : (spent : Int) - created < 2 ^ 63

theorem toInt_widen (a : UInt64) : (a.toBitVec.setWidth 128).toInt = a.toNat := by
  have ha := a.toNat_lt
  have hwide : (a.toBitVec.setWidth 128).toNat = a.toNat := by
    rw [BitVec.toNat_setWidth]
    change a.toNat % _ = _
    omega
  rw [BitVec.toInt_eq_toNat_of_lt (by omega), hwide]

theorem ssubOverflow_widen (a b : UInt64) :
    (a.toBitVec.setWidth 128).ssubOverflow (b.toBitVec.setWidth 128) = false := by
  have ha := a.toNat_lt
  have hb := b.toNat_lt
  rw [BitVec.ssubOverflow, toInt_widen, toInt_widen]
  simp
  omega

theorem toInt_sub_widen (a b : UInt64) :
    (a.toBitVec.setWidth 128 - b.toBitVec.setWidth 128).toInt = (a.toNat : Int) - b.toNat := by
  rw [BitVec.toInt_sub_of_not_ssubOverflow (by simp [ssubOverflow_widen]), toInt_widen, toInt_widen]

end Spending

/-! ## What is spent -/

def Input.found (resolver : Resolver) (input : Input) : Except TransactionError Output :=
  match input.spends resolver with
  | .error cause => .error (Spending.missing input.previous cause)
  | .ok output => .ok output

theorem Input.found_of_ok {resolver : Resolver} {input : Input} {output : Output}
    (h : input.spends resolver = .ok output) : input.found resolver = .ok output := by
  rw [found, h]

theorem Input.found_of_error {resolver : Resolver} {input : Input} {cause : TransactionError}
    (h : input.spends resolver = .error cause) :
    input.found resolver = .error (Spending.missing input.previous cause) := by
  rw [found, h]

namespace Transaction

variable {resolver : Resolver}

theorem mapM_spentAt (resolver : Resolver) (tx : Transaction) :
    (List.range' 0 tx.inputs.length).mapM (tx.spentAt resolver) =
      tx.inputs.mapM (Input.found resolver) := by
  have hfrom : ∀ (rest : List Input) (i : Nat), tx.inputs.drop i = rest →
      (List.range' i rest.length).mapM (tx.spentAt resolver) =
        rest.mapM (Input.found resolver) := by
    intro rest
    induction rest with
    | nil => intro i _; rfl
    | cons input rest ih =>
        intro i hdrop
        have hinput : tx.inputs[i]? = some input := by
          have hhead : (tx.inputs.drop i)[0]? = some input := by rw [hdrop, List.getElem?_cons_zero]
          rwa [List.getElem?_drop, Nat.add_zero] at hhead
        have hrest : tx.inputs.drop (i + 1) = rest := by
          rw [← List.drop_drop, hdrop, List.drop_one, List.tail_cons]
        have hfound : tx.spentAt resolver i = input.found resolver := by
          rw [spentAt, hinput]
          rfl
        rw [List.length_cons, List.range'_succ, List.mapM_cons, List.mapM_cons, ih _ hrest, hfound]
  exact hfrom tx.inputs 0 rfl

theorem mapM_found_of_known {inputs : List Input} {outputs : List Output}
    (h : inputs.map (Input.spends resolver) = outputs.map .ok) :
    inputs.mapM (Input.found resolver) = .ok outputs := by
  induction inputs generalizing outputs with
  | nil =>
      obtain rfl : outputs = [] := List.map_eq_nil_iff.mp h.symm
      rfl
  | cons input inputs ih =>
      cases outputs with
      | nil => cases h
      | cons output outputs =>
          obtain ⟨hinput, hinputs⟩ := List.cons.inj h
          rw [List.mapM_cons, Input.found_of_ok hinput, ih hinputs]
          rfl

/-- One output that cannot be found is enough, wherever it is. -/
theorem mapM_found_of_missing {inputs : List Input}
    (h : ∃ input ∈ inputs, ∃ cause, input.spends resolver = .error cause) :
    ∃ e, e.isMissingOutput = true ∧ inputs.mapM (Input.found resolver) = .error e := by
  induction inputs with
  | nil =>
      obtain ⟨input, hmem, -⟩ := h
      cases hmem
  | cons input inputs ih =>
      rw [List.mapM_cons]
      cases hspends : input.spends resolver with
      | error cause =>
          rw [Input.found_of_error hspends]
          exact ⟨_, Spending.isMissingOutput_missing input.previous cause, rfl⟩
      | ok output =>
          obtain ⟨missing, hmem, cause, hcause⟩ := h
          have hlater : missing ∈ inputs := by
            rcases List.mem_cons.mp hmem with rfl | hmem
            · rw [hspends] at hcause
              cases hcause
            · exact hmem
          obtain ⟨e, hkind, herror⟩ := ih ⟨missing, hlater, cause, hcause⟩
          rw [Input.found_of_ok hspends, herror]
          exact ⟨e, hkind, rfl⟩

theorem totalSpent_of_missing {tx : Transaction}
    (h : ∃ input ∈ tx.inputs, ∃ cause, input.spends resolver = .error cause) :
    ∃ e, e.isMissingOutput = true ∧ tx.totalSpent resolver = .error e := by
  obtain ⟨e, hkind, herror⟩ := mapM_found_of_missing h
  refine ⟨e, hkind, ?_⟩
  rw [totalSpent, mapM_spentAt, herror]
  rfl

theorem totalSpent_of_known {tx : Transaction} {outputs : List Output}
    (h : tx.inputs.map (Input.spends resolver) = outputs.map .ok) :
    tx.totalSpent resolver = Spending.totalOf .inputs (outputs.map Output.amount) := by
  rw [totalSpent, mapM_spentAt, mapM_found_of_known h]
  rfl

theorem surplus_cases {tx : Transaction} {spent : List Output}
    (h : tx.inputs.map (Input.spends resolver) = spent.map .ok) :
    Spending.FeeFits (Spending.worth spent) (Spending.worth tx.outputs) ∧
        tx.surplus resolver =
          .ok ((Spending.worth spent : Int) - Spending.worth tx.outputs) ∨
      ¬Spending.FeeFits (Spending.worth spent) (Spending.worth tx.outputs) ∧
        ∃ defect, tx.surplus resolver = .error (.amount defect) := by
  rw [surplus, totalSpent_of_known h]
  by_cases hspent : 2 ^ 64 ≤ Spending.worth spent
  · refine .inr ⟨fun hfits => Nat.not_lt.mpr hspent hfits.spent_lt, .inputs, ?_⟩
    rw [Spending.totalOf_eq_error_iff.mpr hspent]
    rfl
  obtain ⟨total, htotal, hexact⟩ := Spending.exists_totalOf .inputs (Nat.not_le.mp hspent)
  rw [htotal]
  by_cases hcreated : 2 ^ 64 ≤ Spending.worth tx.outputs
  · refine .inr ⟨fun hfits => Nat.not_lt.mpr hcreated hfits.created_lt, .outputs, ?_⟩
    rw [Spending.totalOf_eq_error_iff.mpr hcreated]
    rfl
  obtain ⟨created, hcreatedTotal, hcreatedExact⟩ :=
    Spending.exists_totalOf .outputs (Nat.not_le.mp hcreated)
  have hmin : Int64.minValue.toInt = -2 ^ 63 := by decide
  have hmax : Int64.maxValue.toInt = 2 ^ 63 - 1 := by decide
  rw [hcreatedTotal, Spending.worth, Spending.worth, ← hexact, ← hcreatedExact]
  simp only [bind, Except.bind]
  split_ifs with hrange
  · refine .inl ⟨⟨total.toNat_lt, created.toNat_lt, ?_, ?_⟩, rfl⟩
    · omega
    · omega
  · refine .inr ⟨fun hfits => hrange ?_, _, rfl⟩
    have hle := hfits.le_difference
    have hlt := hfits.difference_lt
    omega

theorem surplus_eq_ok_iff {tx : Transaction} {spent : List Output}
    (h : tx.inputs.map (Input.spends resolver) = spent.map .ok) {f : Int} :
    tx.surplus resolver = .ok f ↔
      Spending.FeeFits (Spending.worth spent) (Spending.worth tx.outputs) ∧
        f = (Spending.worth spent : Int) - Spending.worth tx.outputs := by
  rcases surplus_cases h with ⟨hfits, hfee⟩ | ⟨hfits, defect, hfee⟩
  · rw [hfee, Except.ok.injEq, eq_comm]
    exact (and_iff_right hfits).symm
  · rw [hfee]
    exact ⟨nofun, fun hok => absurd hok.1 hfits⟩

end Transaction

/-! ## The fee -/

namespace Spending

theorem answer_totalOutput (s : Spending) :
    answer (totalOutput s) = totalOf .outputs (s.transaction.outputs.map Output.amount) := by
  unfold totalOutput
  cases totalOf .outputs (s.transaction.outputs.map Output.amount) <;> rfl

/-- Where an output that is spent is missing, that is what the sum and the fee report.  Otherwise a
sum is exact unless it does not fit into 64 bits, the fee is exact unless a sum or the difference
does not fit, and on the way no word wraps around. -/
theorem fee_exact (resolver : Resolver) (s : Spending) :
    ((∃ input ∈ s.transaction.inputs, ∃ cause, input.spends resolver = .error cause) →
      ∃ e, e.isMissingOutput = true ∧ answer (totalInput resolver s) = .error e ∧
        answer (fee resolver s) = .error e) ∧
    (∀ spent, s.transaction.inputs.map (Input.spends resolver) = spent.map .ok →
      (∀ total, answer (totalInput resolver s) = .ok total ↔ total.toNat = worth spent) ∧
      (answer (totalInput resolver s) = .error (.amount .inputs) ↔ 2 ^ 64 ≤ worth spent) ∧
      (∀ f, answer (fee resolver s) = .ok f ↔
        FeeFits (worth spent) (worth s.transaction.outputs) ∧
          f = (worth spent : Int) - worth s.transaction.outputs) ∧
      (¬FeeFits (worth spent) (worth s.transaction.outputs) →
        ∃ defect, answer (fee resolver s) = .error (.amount defect))) ∧
    (∀ total, answer (totalOutput s) = .ok total ↔
      total.toNat = worth s.transaction.outputs) ∧
    (answer (totalOutput s) = .error (.amount .outputs) ↔
      2 ^ 64 ≤ worth s.transaction.outputs) ∧
    ∀ a b : UInt64,
      (∀ c, addAmounts? a b = some c ↔ c.toNat = a.toNat + b.toNat) ∧
      (a.toBitVec.setWidth 128).ssubOverflow (b.toBitVec.setWidth 128) = false ∧
      (a.toBitVec.setWidth 128 - b.toBitVec.setWidth 128).toInt = (a.toNat : Int) - b.toNat := by
  rw [answer_totalInput, answer_fee, answer_totalOutput]
  refine ⟨fun hmissing => ?_, fun spent hspent => ⟨?_, ?_, fun f => ?_, fun hfits => ?_⟩,
    fun total => totalOf_eq_ok_iff, totalOf_eq_error_iff,
    fun a b => ⟨fun c => addAmounts?_eq_some_iff, ssubOverflow_widen a b, toInt_sub_widen a b⟩⟩
  · obtain ⟨e, hkind, herror⟩ := Transaction.totalSpent_of_missing hmissing
    refine ⟨e, hkind, herror, ?_⟩
    rw [Transaction.surplus, herror]
    rfl
  · intro total
    rw [Transaction.totalSpent_of_known hspent]
    exact totalOf_eq_ok_iff
  · rw [Transaction.totalSpent_of_known hspent]
    exact totalOf_eq_error_iff
  · exact Transaction.surplus_eq_ok_iff hspent
  · rcases Transaction.surplus_cases hspent with ⟨hfit, -⟩ | ⟨-, hrefused⟩
    · exact absurd hfit hfits
    · exact hrefused

/-- One input remembers what it spends.  The other finds a larger output, or none. -/
theorem fee_exact_goldSpend :
    Transaction.goldSpend.inputs.map (Input.spends fun _ => .ok ⟨6000000000, ⟨[0xac]⟩⟩) =
        [⟨7, ⟨[0xac]⟩⟩, ⟨6000000000, ⟨[0xac]⟩⟩].map .ok ∧
      answer (fee (fun _ => .ok ⟨6000000000, ⟨[0xac]⟩⟩) (.start Transaction.goldSpend)) =
        .ok 1000000007 ∧
      ∃ e, e.isMissingOutput = true ∧
        answer (fee (fun point => .error (.unknownOutput point)) (.start Transaction.goldSpend)) =
          .error e := by
  have hspent : Transaction.goldSpend.inputs.map
      (Input.spends fun _ => .ok ⟨6000000000, ⟨[0xac]⟩⟩) =
        [⟨7, ⟨[0xac]⟩⟩, ⟨6000000000, ⟨[0xac]⟩⟩].map .ok := rfl
  have hfits : FeeFits (worth [⟨7, ⟨[0xac]⟩⟩, ⟨6000000000, ⟨[0xac]⟩⟩])
      (worth Transaction.goldSpend.outputs) := ⟨by decide, by decide, by decide, by decide⟩
  obtain ⟨e, hkind, -, herror⟩ :=
    (fee_exact (fun point => .error (.unknownOutput point)) (.start Transaction.goldSpend)).1
      ⟨⟨⟨.ofNat 32 0xcd, 0⟩, .empty, 0, none⟩, .tail _ (.head _), _, rfl⟩
  refine ⟨hspent, ?_, e, hkind, herror⟩
  exact (((fee_exact _ (.start Transaction.goldSpend)).2.1 _ hspent).2.2.1 _).mpr
    ⟨hfits, by decide⟩

end Spending

end UtxoSpend
