import Mathlib
import UtxoSpend.Proofs.Machine.NumberCodec
import UtxoSpend.Proofs.Machine.Operations

/-!
# Arithmetic

Numeric opcodes calculate with words of 64 bits, on operands of limited length.  The limit keeps all
results within a word, but not within the limit: a result can need one byte more.  Main statement:
the opcodes calculate as on integers without bounds, put the result in its shortest form, and refuse
it as an operand if it is beyond the limit.
-/

namespace UtxoSpend

open Effect

/-! ## The opcodes -/

def truth (p : Prop) [Decidable p] : Int := if p then 1 else 0

/-- The result of a numeric opcode for integers without bounds.  The operands are listed from the
top of the stack. -/
inductive Opcode.Calculates : Opcode → List Int → Int → Prop
  | increment (a : Int) : Calculates 0x8b [a] (a + 1)
  | decrement (a : Int) : Calculates 0x8c [a] (a - 1)
  | negate (a : Int) : Calculates 0x8f [a] (-a)
  | absolute (a : Int) : Calculates 0x90 [a] |a|
  | isZero (a : Int) : Calculates 0x91 [a] (truth (a = 0))
  | isNonzero (a : Int) : Calculates 0x92 [a] (truth (a ≠ 0))
  | add (a b : Int) : Calculates 0x93 [b, a] (a + b)
  | sub (a b : Int) : Calculates 0x94 [b, a] (a - b)
  | boolAnd (a b : Int) : Calculates 0x9a [b, a] (truth (a ≠ 0 ∧ b ≠ 0))
  | boolOr (a b : Int) : Calculates 0x9b [b, a] (truth (a ≠ 0 ∨ b ≠ 0))
  | equal (a b : Int) : Calculates 0x9c [b, a] (truth (a = b))
  | notEqual (a b : Int) : Calculates 0x9e [b, a] (truth (a ≠ b))
  | less (a b : Int) : Calculates 0x9f [b, a] (truth (a < b))
  | greater (a b : Int) : Calculates 0xa0 [b, a] (truth (a > b))
  | lessOrEqual (a b : Int) : Calculates 0xa1 [b, a] (truth (a ≤ b))
  | greaterOrEqual (a b : Int) : Calculates 0xa2 [b, a] (truth (a ≥ b))
  | minimum (a b : Int) : Calculates 0xa3 [b, a] (min a b)
  | maximum (a b : Int) : Calculates 0xa4 [b, a] (max a b)
  | within (n lower upper : Int) :
      Calculates 0xa5 [upper, lower, n] (truth (lower ≤ n ∧ n < upper))

/-- How many numbers an operation takes from the stack before it does anything else. -/
def StackOp.operandCount : StackOp → Nat
  | pick | roll | unary _ => 1
  | binary _ => 2
  | within => 3
  | _ => 0

def Action.operandCount : Action → Nat
  | .stack op => op.operandCount
  | .stackVerify op _ => op.operandCount
  | .checkMultiSig _ => 1
  | _ => 0

namespace Opcode

theorem Calculates.operandCount_eq {op : Opcode} {operands : List Int} {r : Int}
    (h : op.Calculates operands r) : op.action.operandCount = operands.length := by
  cases h <;> rfl

theorem Calculates.operandCount_pos {op : Opcode} {operands : List Int} {r : Int}
    (h : op.Calculates operands r) : 0 < op.action.operandCount := by
  rw [h.operandCount_eq]
  cases h <;> exact Nat.succ_pos _

theorem natAbs_truth_le (p : Prop) [Decidable p] : (truth p).natAbs ≤ 1 := by
  rw [truth]
  split_ifs <;> decide

/-- A result is less than twice as large as the operands can be. -/
theorem Calculates.natAbs_le {op : Opcode} {operands : List Int} {r : Int} {w : Nat}
    (h : op.Calculates operands r) (hw : 2 ≤ w) (hsmall : ∀ a ∈ operands, a.natAbs < w) :
    r.natAbs ≤ 2 * w - 2 := by
  have htruth : ∀ (p : Prop) [Decidable p], (truth p).natAbs ≤ 2 * w - 2 := fun p _ =>
    (natAbs_truth_le p).trans (by omega)
  cases h with
  | increment a | decrement a | negate a =>
      have ha := hsmall a (by simp)
      omega
  | absolute a =>
      have ha := hsmall a (by simp)
      rw [Int.natAbs_abs]
      omega
  | add a b | sub a b | minimum a b | maximum a b =>
      have ha := hsmall a (by simp)
      have hb := hsmall b (by simp)
      omega
  | _ => exact htruth _

theorem counted_of_operandCount {op : Opcode} (h : 0 < op.action.operandCount) :
    op.isCounted = true ∧ op.isDisabled = false :=
  forall_byte (p := fun op => 0 < (Opcode.action op).operandCount →
    Opcode.isCounted op = true ∧ Opcode.isDisabled op = false) (by decide +kernel) op h

end Opcode

/-! ## Words -/

namespace Number

variable {a b n lower upper : Int64}

def Moderate (n : Int64) : Prop := n.toInt.natAbs < 2 ^ 62

theorem toInt_add_of_moderate (ha : Moderate a) (hb : Moderate b) :
    (a + b).toInt = a.toInt + b.toInt := by
  unfold Moderate at ha hb
  rw [Int64.toInt_add, Int.bmod_eq_of_le (by omega) (by omega)]

theorem toInt_sub_of_moderate (ha : Moderate a) (hb : Moderate b) :
    (a - b).toInt = a.toInt - b.toInt := by
  unfold Moderate at ha hb
  rw [Int64.toInt_sub, Int.bmod_eq_of_le (by omega) (by omega)]

theorem toInt_neg_of_moderate (ha : Moderate a) : (-a).toInt = -a.toInt := by
  unfold Moderate at ha
  rw [Int64.toInt_neg, Int.bmod_eq_of_le (by omega) (by omega)]

theorem toInt_abs_of_moderate (ha : Moderate a) : a.abs.toInt = |a.toInt| := by
  have hne : a.toBitVec ≠ BitVec.intMin 64 := by
    intro hmin
    have hlow : a.toInt = -2 ^ 63 := by
      rw [Int64.toInt, hmin]
      rfl
    unfold Moderate at ha
    omega
  rw [Int64.toInt, Int64.toBitVec_abs, BitVec.toInt_abs_eq_natAbs_of_ne_intMin hne,
    Int.abs_eq_natAbs]
  rfl

theorem moderate_one : Moderate 1 := by
  rw [Moderate, Int64.toInt_one]
  decide

theorem toInt_truth {p q : Prop} [Decidable p] [Decidable q] (h : p ↔ q) :
    (if p then 1 else 0 : Int64).toInt = truth q := by
  rw [truth, if_congr h rfl rfl]
  split_ifs <;> rfl

theorem toInt_truth_not {p q : Prop} [Decidable p] [Decidable q] (h : p ↔ q) :
    (if p then 0 else 1 : Int64).toInt = truth (¬q) := by
  rw [← toInt_truth (not_congr h), ite_not]

theorem eq_zero_iff : a = 0 ↔ a.toInt = 0 := by
  rw [← Int64.toInt_inj]
  rfl

theorem toInt_min : (if a ≤ b then a else b).toInt = min a.toInt b.toInt := by
  rw [min_def, apply_ite Int64.toInt, if_congr Int64.le_iff_toInt_le rfl rfl]

theorem toInt_max : (if a ≤ b then b else a).toInt = max a.toInt b.toInt := by
  rw [max_def, apply_ite Int64.toInt, if_congr Int64.le_iff_toInt_le rfl rfl]

/-! ## Operands -/

theorem two_mul_signWeight {length : Nat} (h : 1 ≤ length) :
    2 * signWeight length = 2 ^ (8 * length) := by
  rw [signWeight, ← Nat.pow_succ', Nat.succ_eq_add_one, Nat.sub_add_cancel (by omega)]

def ReadsAs (rule : NumberRule) (item : Bytes) (n : Int) : Prop :=
  ∃ v, decode rule item = .ok v ∧ v.toInt = n

variable {rule : NumberRule} {item : Bytes}

theorem natAbs_lt_of_decode (hmax : rule.maxLength ≤ 7) (h : decode rule item = .ok n) :
    n.toInt.natAbs < signWeight rule.maxLength := by
  obtain ⟨hlength, rfl⟩ := decode_eq_ok h
  rw [toInt_value (by omega), natAbs_signMagnitude]
  exact lt_of_lt_of_le (magnitude_lt item) (signWeight_le hlength)

theorem natAbs_lt_of_readsAs (hmax : rule.maxLength ≤ 7) {items : List Bytes}
    {operands : List Int} (hread : List.Forall₂ (ReadsAs rule) items operands) :
    ∀ a ∈ operands, a.natAbs < signWeight rule.maxLength := by
  induction hread with
  | nil => simp
  | cons h _ ih =>
      obtain ⟨x, hx, rfl⟩ := h
      exact List.forall_mem_cons.mpr ⟨natAbs_lt_of_decode hmax hx, ih⟩

theorem moderate_of_decode (hmax : rule.maxLength ≤ 7) (h : decode rule item = .ok n) :
    Moderate n :=
  lt_of_lt_of_le (natAbs_lt_of_decode hmax h) ((signWeight_le hmax).trans (by decide))

end Number

/-! ## Running -/

theorem Stack.popNumber_of_decode {rule : NumberRule} {item : Bytes} {n : Int64}
    (h : Number.decode rule item = .ok n) (below : Stack) :
    popNumber rule (item :: below) = .ok n below := by
  rw [popNumber_cons, h]

theorem Stack.popNumber_of_refused {rule : NumberRule} {item : Bytes} {e : Failure}
    (h : Number.decode rule item = .error e) (below : Stack) :
    popNumber rule (item :: below) = .error e below := by
  rw [popNumber_cons, h]

namespace StackOp

open Number Stack

variable {rule : NumberRule} {item item' item'' : Bytes} {a b n lower upper : Int64}

theorem run_unary (op : UnaryOp) (ha : decode rule item = .ok a) (below : Stack) :
    (unary op).run rule (item :: below) = .ok () (encode (op.apply a) :: below) := by
  rw [run, bind_of_ok (popNumber_of_decode ha below)]
  rfl

theorem run_binary (op : BinaryOp) (hb : decode rule item = .ok b) (ha : decode rule item' = .ok a)
    (below : Stack) :
    (binary op).run rule (item :: item' :: below) = .ok () (encode (op.apply a b) :: below) := by
  rw [run, bind_of_ok (popNumber_of_decode hb _), bind_of_ok (popNumber_of_decode ha below)]
  rfl

theorem encode_truth (p : Prop) [Decidable p] :
    Truth.encode (decide p) = encode (if p then 1 else 0) := by
  by_cases hp : p
  · simp only [hp]
    decide +kernel
  · simp only [hp]
    decide +kernel

theorem run_within (hupper : decode rule item = .ok upper) (hlower : decode rule item' = .ok lower)
    (hn : decode rule item'' = .ok n) (below : Stack) :
    within.run rule (item :: item' :: item'' :: below) =
      .ok () (encode (if lower ≤ n ∧ n < upper then 1 else 0) :: below) := by
  rw [run, bind_of_ok (popNumber_of_decode hupper _), bind_of_ok (popNumber_of_decode hlower _),
    bind_of_ok (popNumber_of_decode hn below), ← encode_truth, Bool.decide_and]
  rfl

end StackOp

/-! ## Refusing -/

namespace Stack

variable {rule : NumberRule}

def Takes (rule : NumberRule) : Nat → StackM Unit → Prop
  | 0, _ => True
  | count + 1, op => ∃ f, op = popNumber rule >>= f ∧ ∀ n, Takes rule count (f n)

/-- An operand that is not accepted makes the operation fail; those above it are taken. -/
theorem Takes.run_refused {count : Nat} {op : StackM Unit} {above : List Bytes}
    {numbers : List Int} {item : Bytes} {e : Failure} (h : Takes rule count op)
    (habove : List.Forall₂ (Number.ReadsAs rule) above numbers)
    (hitem : Number.decode rule item = .error e) (hcount : above.length < count) (below : Stack) :
    op (above ++ item :: below) = .error e below := by
  induction habove generalizing count op with
  | nil =>
      obtain ⟨count, rfl⟩ := Nat.exists_eq_add_of_lt hcount
      obtain ⟨f, rfl, -⟩ := h
      exact bind_of_error (popNumber_of_refused hitem below)
  | cons hread _ ih =>
      obtain ⟨count, rfl⟩ := Nat.exists_eq_add_of_lt hcount
      obtain ⟨f, rfl, hrest⟩ := h
      obtain ⟨n, hn, -⟩ := hread
      rw [List.cons_append, bind_of_ok (popNumber_of_decode hn _)]
      exact ih (hrest n) (by simp at hcount ⊢; omega)

end Stack

theorem StackOp.takes_run (rule : NumberRule) (op : StackOp) :
    Stack.Takes rule op.operandCount (op.run rule) := by
  cases op with
  | unary op => exact ⟨_, rfl, fun _ => trivial⟩
  | binary op => exact ⟨_, rfl, fun _ => ⟨_, rfl, fun _ => trivial⟩⟩
  | within => exact ⟨_, rfl, fun _ => ⟨_, rfl, fun _ => ⟨_, rfl, fun _ => trivial⟩⟩⟩
  | pick | roll => exact ⟨_, bind_assoc _ _ _, fun _ => trivial⟩
  | _ => trivial

namespace Exec

open Number

variable {env : Env} {script : List Instruction} {offset : Nat} {op : Opcode} {s : State}

theorem perform_refused {above : List Bytes} {numbers : List Int} {item : Bytes} {below : Stack}
    {e : Failure} (hdata : s.data = above ++ item :: below)
    (habove : List.Forall₂ (ReadsAs env.numberRule) above numbers)
    (hitem : decode env.numberRule item = .error e)
    (hcount : above.length < op.action.operandCount) :
    perform env script offset ⟨op, []⟩ s = .error e { s with data := below } := by
  have hstack : ∀ sop : StackOp, above.length < sop.operandCount →
      onData (sop.run env.numberRule) s = .error e { s with data := below } := by
    intro sop hsop
    rw [onData_run, hdata, (sop.takes_run _).run_refused habove hitem hsop]
  rw [perform]
  dsimp only
  cases haction : op.action with
  | stack sop =>
      rw [haction] at hcount
      exact hstack sop hcount
  | stackVerify sop kind =>
      rw [haction] at hcount
      exact bind_of_error (hstack sop hcount)
  | checkMultiSig verify =>
      rw [haction] at hcount
      have hempty : above = [] := List.length_eq_zero_iff.mp (Nat.lt_one_iff.mp hcount)
      subst hempty
      have hpop : onData (Stack.popNumber env.numberRule) s =
          .error e { s with data := below } := by
        rw [onData_run, hdata, List.nil_append, Stack.popNumber_of_refused hitem]
      exact bind_of_error (bind_of_error (bind_of_error hpop))
  | _ =>
      rw [haction] at hcount
      exact absurd hcount (Nat.not_lt_zero _)

theorem execute_refused {above : List Bytes} {numbers : List Int} {item : Bytes} {below : Stack}
    {e : Failure} (hexecuting : s.isExecuting = true) (hdata : s.data = above ++ item :: below)
    (habove : List.Forall₂ (ReadsAs env.numberRule) above numbers)
    (hitem : decode env.numberRule item = .error e)
    (hcount : above.length < op.action.operandCount) :
    execute env script offset ⟨op, []⟩ s =
      if s.operations < env.limits.operations then
        .error e { s with data := below, operations := s.operations + 1 }
      else
        .error (.tooManyOperations env.limits.operations)
          { s with operations := s.operations + 1 } := by
  obtain ⟨hcounted, hdisabled⟩ := Opcode.counted_of_operandCount (Nat.zero_lt_of_lt hcount)
  rw [execute_counted rfl hcounted hdisabled hexecuting,
    perform_refused (s := { s with operations := s.operations + 1 }) hdata habove hitem hcount]

end Exec

/-! ## Calculating -/

open Number

def Opcode.Yields (rule : NumberRule) (op : Opcode) (items : List Bytes) (r : Int) : Prop :=
  ∃ sop v, op.action = .stack sop ∧ v.toInt = r ∧
    ∀ below, sop.run rule (items ++ below) = .ok () (encode v :: below)

namespace Opcode

variable {rule : NumberRule} {op : Opcode} {items : List Bytes}

theorem yields_unary (f : UnaryOp) (g : Int → Int) {a : Int}
    (haction : op.action = .stack (.unary f)) (hmax : rule.maxLength ≤ 7)
    (hread : List.Forall₂ (ReadsAs rule) items [a])
    (hexact : ∀ x, Moderate x → (f.apply x).toInt = g x.toInt) : op.Yields rule items (g a) := by
  obtain _ | ⟨⟨x, hx, rfl⟩, _ | _⟩ := hread
  exact ⟨_, _, haction, hexact x (moderate_of_decode hmax hx), StackOp.run_unary f hx⟩

theorem yields_binary (f : BinaryOp) (g : Int → Int → Int) {a b : Int}
    (haction : op.action = .stack (.binary f)) (hmax : rule.maxLength ≤ 7)
    (hread : List.Forall₂ (ReadsAs rule) items [b, a])
    (hexact : ∀ x y, Moderate x → Moderate y → (f.apply x y).toInt = g x.toInt y.toInt) :
    op.Yields rule items (g a b) := by
  obtain _ | ⟨⟨y, hy, rfl⟩, _ | ⟨⟨x, hx, rfl⟩, _ | _⟩⟩ := hread
  have hsum := hexact x y (moderate_of_decode hmax hx) (moderate_of_decode hmax hy)
  exact ⟨_, _, haction, hsum, StackOp.run_binary f hy hx⟩

theorem Calculates.yields {operands : List Int} {r : Int} (h : op.Calculates operands r)
    (hmax : rule.maxLength ≤ 7) (hread : List.Forall₂ (ReadsAs rule) items operands) :
    op.Yields rule items r := by
  cases h with
  | increment =>
      refine yields_unary .increment (· + 1) rfl hmax hread fun x hx => ?_
      rw [UnaryOp.apply, toInt_add_of_moderate hx moderate_one, Int64.toInt_one]
  | decrement =>
      refine yields_unary .decrement (· - 1) rfl hmax hread fun x hx => ?_
      rw [UnaryOp.apply, toInt_sub_of_moderate hx moderate_one, Int64.toInt_one]
  | negate =>
      exact yields_unary .negate (- ·) rfl hmax hread fun _ => toInt_neg_of_moderate
  | absolute =>
      exact yields_unary .absolute abs rfl hmax hread fun _ => toInt_abs_of_moderate
  | isZero =>
      refine yields_unary .isZero (fun a => truth (a = 0)) rfl hmax hread fun _ _ => ?_
      exact toInt_truth eq_zero_iff
  | isNonzero =>
      refine yields_unary .isNonzero (fun a => truth (a ≠ 0)) rfl hmax hread fun _ _ => ?_
      exact toInt_truth_not eq_zero_iff
  | add =>
      exact yields_binary .add (· + ·) rfl hmax hread fun _ _ => toInt_add_of_moderate
  | sub =>
      exact yields_binary .sub (· - ·) rfl hmax hread fun _ _ => toInt_sub_of_moderate
  | boolAnd =>
      refine yields_binary .boolAnd (fun a b => truth (a ≠ 0 ∧ b ≠ 0)) rfl hmax hread ?_
      intro _ _ _ _
      exact toInt_truth (and_congr (not_congr eq_zero_iff) (not_congr eq_zero_iff))
  | boolOr =>
      refine yields_binary .boolOr (fun a b => truth (a ≠ 0 ∨ b ≠ 0)) rfl hmax hread ?_
      intro _ _ _ _
      exact toInt_truth (or_congr (not_congr eq_zero_iff) (not_congr eq_zero_iff))
  | equal =>
      refine yields_binary .equal (fun a b => truth (a = b)) rfl hmax hread fun _ _ _ _ => ?_
      exact toInt_truth Int64.toInt_inj.symm
  | notEqual =>
      refine yields_binary .notEqual (fun a b => truth (a ≠ b)) rfl hmax hread fun _ _ _ _ => ?_
      exact toInt_truth_not Int64.toInt_inj.symm
  | less =>
      refine yields_binary .less (fun a b => truth (a < b)) rfl hmax hread fun _ _ _ _ => ?_
      exact toInt_truth Int64.lt_iff_toInt_lt
  | greater =>
      refine yields_binary .greater (fun a b => truth (a > b)) rfl hmax hread fun _ _ _ _ => ?_
      exact toInt_truth Int64.lt_iff_toInt_lt
  | lessOrEqual =>
      refine yields_binary .lessOrEqual (fun a b => truth (a ≤ b)) rfl hmax hread ?_
      intro _ _ _ _
      exact toInt_truth Int64.le_iff_toInt_le
  | greaterOrEqual =>
      refine yields_binary .greaterOrEqual (fun a b => truth (a ≥ b)) rfl hmax hread ?_
      intro _ _ _ _
      exact toInt_truth Int64.le_iff_toInt_le
  | minimum => exact yields_binary .min min rfl hmax hread fun _ _ _ _ => toInt_min
  | maximum => exact yields_binary .max max rfl hmax hread fun _ _ _ _ => toInt_max
  | within =>
      obtain _ | ⟨⟨upper, hupper, rfl⟩, _ | ⟨⟨lower, hlower, rfl⟩, hread⟩⟩ := hread
      obtain _ | ⟨⟨n, hn, rfl⟩, _ | _⟩ := hread
      refine ⟨.within, _, rfl, ?_, StackOp.run_within hupper hlower hn⟩
      exact toInt_truth (and_congr Int64.le_iff_toInt_le Int64.lt_iff_toInt_lt)

end Opcode

/-- The item is no operand: an opcode that would take it fails, whatever is below, unless an operand
above is refused before. -/
def Exec.Refuses (env : Env) (item : Bytes) : Prop :=
  ∀ (script : List Instruction) (offset : Nat) (op : Opcode) (above : List Bytes)
    (numbers : List Int) (below : Stack) (s : State),
    s.isExecuting = true → s.data = above ++ item :: below →
      List.Forall₂ (ReadsAs env.numberRule) above numbers →
        above.length < op.action.operandCount →
          execute env script offset ⟨op, []⟩ s =
            if s.operations < env.limits.operations then
              .error (.numberTooBig item env.limits.numberLength)
                { s with data := below, operations := s.operations + 1 }
            else
              .error (.tooManyOperations env.limits.operations)
                { s with operations := s.operations + 1 }

/-- The opcode puts the integer `r` where its operands were, on top of `below`: the word `v` holds
it exactly, and it is written in its shortest form.  As an operand it is read again if it is below
the limit. -/
structure Exec.PutsExactly (env : Env) (op : Opcode) (s : State) (below : Stack) (r : Int)
    (v : Int64) : Prop where
  exact : v.toInt = r
  puts : ∀ (script : List Instruction) (offset : Nat),
    execute env script offset ⟨op, []⟩ s =
      if s.operations < env.limits.operations then
        .ok () { s with data := encode v :: below, operations := s.operations + 1 }
      else
        .error (.tooManyOperations env.limits.operations)
          { s with operations := s.operations + 1 }
  denotes : signMagnitude (encode v) = r
  shortest : IsShortest (encode v)
  natAbs_le : r.natAbs ≤ 2 ^ (8 * env.limits.numberLength) - 2
  length_le : (encode v).length ≤ env.limits.numberLength + 1
  read : r.natAbs < 2 ^ (8 * env.limits.numberLength - 1) → ReadsAs env.numberRule (encode v) r
  refused : 2 ^ (8 * env.limits.numberLength - 1) ≤ r.natAbs → Refuses env (encode v)

namespace Exec

variable {env : Env} {op : Opcode} {s : State} {operands : List Int} {r : Int}
  {items : List Bytes} {below : Stack}

theorem execute_calculates (hmax : env.limits.numberLength ≤ 7) (h : op.Calculates operands r)
    (hread : List.Forall₂ (ReadsAs env.numberRule) items operands)
    (hdata : s.data = items ++ below) (hexecuting : s.isExecuting = true) :
    ∃ v : Int64, v.toInt = r ∧ ∀ (script : List Instruction) (offset : Nat),
      execute env script offset ⟨op, []⟩ s =
        if s.operations < env.limits.operations then
          .ok () { s with data := encode v :: below, operations := s.operations + 1 }
        else
          .error (.tooManyOperations env.limits.operations)
            { s with operations := s.operations + 1 } := by
  obtain ⟨sop, v, haction, hexact, hrun⟩ := h.yields hmax hread
  obtain ⟨hcounted, hdisabled⟩ := Opcode.counted_of_operandCount h.operandCount_pos
  refine ⟨v, hexact, fun script offset => ?_⟩
  have hperform : perform env script offset ⟨op, []⟩ { s with operations := s.operations + 1 } =
      .ok () { s with data := encode v :: below, operations := s.operations + 1 } := by
    rw [perform, haction]
    dsimp only
    rw [onData_run]
    dsimp only
    rw [hdata, hrun]
  rw [execute_counted rfl hcounted hdisabled hexecuting, hperform]

theorem putsExactly (hpos : 1 ≤ env.limits.numberLength) (hmax : env.limits.numberLength ≤ 7)
    (h : op.Calculates operands r) (hread : List.Forall₂ (ReadsAs env.numberRule) items operands)
    (hdata : s.data = items ++ below) (hexecuting : s.isExecuting = true) :
    ∃ v, PutsExactly env op s below r v := by
  obtain ⟨v, hexact, hrun⟩ := execute_calculates hmax h hread hdata hexecuting
  have hbound : r.natAbs ≤ 2 * signWeight env.limits.numberLength - 2 :=
    h.natAbs_le (le_trans (by decide) (signWeight_le hpos)) (natAbs_lt_of_readsAs hmax hread)
  rw [two_mul_signWeight hpos] at hbound
  have hlimit : env.numberRule.maxLength ≤ 8 := hmax.trans (by decide)
  have hdecode := decode_encode hlimit v
  rw [hexact] at hdecode
  refine ⟨v, ?_⟩
  constructor
  case exact => exact hexact
  case puts => exact hrun
  case denotes => rw [signMagnitude_encode, hexact]
  case shortest => exact isShortest_encode v
  case natAbs_le => exact hbound
  case length_le =>
    rw [length_encode_le_iff, hexact]
    calc r.natAbs ≤ 2 ^ (8 * env.limits.numberLength) - 2 := hbound
      _ < 2 ^ (8 * env.limits.numberLength) := Nat.sub_lt (Nat.two_pow_pos _) (by decide)
      _ ≤ signWeight (env.limits.numberLength + 1) :=
        Nat.pow_le_pow_right (by decide) (by omega)
  case read =>
    intro hsmall
    exact ⟨v, hdecode.trans (if_pos hsmall), hexact⟩
  case refused =>
    intro hlarge script offset op' above numbers below' t ht htdata habove hcount
    have hrefused := hdecode.trans (if_neg (Nat.not_lt.mpr hlarge))
    exact execute_refused ht htdata habove hrefused hcount

/-- Numeric opcodes calculate as on integers without bounds, whatever length the machine allows for
operands up to seven bytes.  A result that needs more is put, and refused as an operand. -/
theorem arithmetic_exact :
    ∀ env : Env, 1 ≤ env.limits.numberLength → env.limits.numberLength ≤ 7 →
      ∀ (op : Opcode) (operands : List Int) (r : Int) (items : List Bytes) (below : Stack)
        (s : State),
        op.Calculates operands r → List.Forall₂ (ReadsAs env.numberRule) items operands →
          s.data = items ++ below → s.isExecuting = true →
            op.action.operandCount = operands.length ∧ ∃ v, PutsExactly env op s below r v :=
  fun _ hpos hmax _ _ _ _ _ _ h hread hdata hexecuting =>
    ⟨h.operandCount_eq, putsExactly hpos hmax h hread hdata hexecuting⟩

/-- With operands of one byte, the largest sum that can be put cannot be negated. -/
theorem arithmetic_exact_largestSum :
    execute ⟨.minimalData, { numberLength := 1 }, none, 0⟩ [] 0 ⟨0x93, []⟩
        { data := [[0x7f], [0x7f]] } =
        .ok () { data := [[0xfe, 0x00]], operations := 1 } ∧
      execute ⟨.minimalData, { numberLength := 1 }, none, 0⟩ [] 0 ⟨0x8f, []⟩
        { data := [[0xfe, 0x00]] } =
        .error (.numberTooBig [0xfe, 0x00] 1) { operations := 1 } := by
  have hread : ReadsAs ⟨1, true⟩ [0x7f] 127 := ⟨127, by decide +kernel, by decide⟩
  obtain ⟨-, v, h⟩ := arithmetic_exact ⟨.minimalData, { numberLength := 1 }, none, 0⟩ (by decide)
    (by decide) 0x93 [127, 127] (127 + 127) [[0x7f], [0x7f]] [] { data := [[0x7f], [0x7f]] }
    (.add 127 127) (.cons hread (.cons hread .nil)) rfl rfl
  have hv : v = 254 := Int64.toInt_inj.mp h.exact
  have hencode : encode v = [0xfe, 0x00] := by
    rw [hv]
    decide +kernel
  have hputs := h.puts [] 0
  have hrefused := h.refused (by decide) [] 0 0x8f [] [] [] { data := [encode v] } rfl rfl .nil
    (by decide +kernel)
  rw [hencode] at hputs hrefused
  exact ⟨hputs, hrefused⟩

end Exec

end UtxoSpend
