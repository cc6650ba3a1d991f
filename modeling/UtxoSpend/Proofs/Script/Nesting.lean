import Mathlib
import UtxoSpend.Script.Instruction

/-!
# Nested conditionals

Two opcodes open a conditional, one turns to its other branch and one closes it.  Which conditional
an instruction belongs to can therefore be read off the script, by counting.  Main statement: what
an instruction makes of the list of open conditionals changes its length by what the instruction
counts for, and leaves alone the conditionals further out than those it belongs to.
-/

namespace UtxoSpend

namespace Opcode

def negatedBranch : Opcode := 0x64

def versionBranch : Opcode := 0x65

def negatedVersionBranch : Opcode := 0x66

def otherwise : Opcode := 0x67

end Opcode

namespace Instruction

def opens (i : Instruction) : Bool := i.op == Opcode.branch || i.op == Opcode.negatedBranch

def turns (i : Instruction) : Bool := i.op == Opcode.otherwise

def closes (i : Instruction) : Bool := i.op == Opcode.endBranch

/-- Whether an instruction asks for a branch on the version, for which there is no rule. -/
def asksVersion (i : Instruction) : Bool :=
  i.op == Opcode.versionBranch || i.op == Opcode.negatedVersionBranch

def nesting (is : List Instruction) : ℤ := is.countP opens - is.countP closes

/-- Conditionals are turned and closed only where more of them were opened than closed. -/
def Inside (is : List Instruction) : Prop :=
  ∀ n i, is[n]? = some i → i.turns = true ∨ i.closes = true → 0 < nesting (is.take n)

/-- Every turn and every end belongs to a conditional, and every conditional is closed. -/
structure WellNested (is : List Instruction) : Prop where
  inside : Inside is
  closed : nesting is = 0

theorem inside_iff {is : List Instruction} :
    Inside is ↔ ∀ n : Fin is.length,
      is[n].turns = true ∨ is[n].closes = true → 0 < nesting (is.take n) := by
  constructor
  · exact fun h n => h n is[n] (List.getElem?_eq_getElem n.isLt)
  · intro h n i hi
    obtain ⟨hlt, rfl⟩ := List.getElem?_eq_some_iff.mp hi
    exact h ⟨n, hlt⟩

instance : DecidablePred Inside := fun _ => decidable_of_iff _ inside_iff.symm

instance : DecidablePred WellNested := fun is =>
  decidable_of_iff (Inside is ∧ nesting is = 0) ⟨fun h => ⟨h.1, h.2⟩, fun h => ⟨h.inside, h.closed⟩⟩

def reshape (i : Instruction) (runs : Bool) (bs : List Bool) : List Bool :=
  if i.opens then runs :: bs
  else if i.turns then bs.modifyHead not
  else if i.closes then bs.tail
  else bs

variable {is js : List Instruction} {i : Instruction} {runs : Bool} {bs : List Bool}

/-! ## Counting -/

theorem nesting_append : nesting (is ++ js) = nesting is + nesting js := by
  simp only [nesting, List.countP_append]
  omega

theorem turns_eq_false_of_opens (h : i.opens = true) : i.turns = false ∧ i.closes = false := by
  rw [opens, Bool.or_eq_true, beq_iff_eq, beq_iff_eq] at h
  rw [turns, closes]
  rcases h with h | h <;> rw [h] <;> decide

theorem closes_eq_false_of_turns (h : i.turns = true) : i.closes = false := by
  rw [turns, beq_iff_eq] at h
  rw [closes, h]
  decide

/-! ## Open conditionals -/

theorem reshape_of_opens (h : i.opens = true) : i.reshape runs bs = runs :: bs := if_pos h

theorem reshape_of_turns (h : i.turns = true) : i.reshape runs bs = bs.modifyHead not := by
  have hopens : ¬i.opens = true := by
    intro hopens
    rw [(turns_eq_false_of_opens hopens).1] at h
    cases h
  rw [reshape, if_neg hopens, if_pos h]

theorem reshape_of_closes (h : i.closes = true) : i.reshape runs bs = bs.tail := by
  have hopens : ¬i.opens = true := by
    intro hopens
    rw [(turns_eq_false_of_opens hopens).2] at h
    cases h
  have hturns : ¬i.turns = true := by
    intro hturns
    rw [closes_eq_false_of_turns hturns] at h
    cases h
  rw [reshape, if_neg hopens, if_neg hturns, if_pos h]

theorem reshape_of_shapeless (hopens : i.opens = false) (hturns : i.turns = false)
    (hcloses : i.closes = false) : i.reshape runs bs = bs := by
  simp [reshape, hopens, hturns, hcloses]

theorem length_reshape (hopen : i.turns = true ∨ i.closes = true → bs ≠ []) :
    ((i.reshape runs bs).length : ℤ) = bs.length + nesting [i] := by
  unfold reshape
  split_ifs with hopens hturns hcloses
  · obtain ⟨-, hcloses⟩ := turns_eq_false_of_opens hopens
    simp [nesting, hopens, hcloses]
  · have hcloses := closes_eq_false_of_turns hturns
    simp [nesting, hopens, hcloses]
  · have hpos := List.length_pos_iff.mpr (hopen (.inr hcloses))
    simp only [nesting, List.countP_singleton, hopens, hcloses, List.length_tail]
    simp only [Bool.false_eq_true, if_false, if_true]
    omega
  · simp [nesting, hopens, hcloses]

theorem reshape_append {outer : List Bool} (hopen : i.turns = true ∨ i.closes = true → bs ≠ []) :
    i.reshape runs (bs ++ outer) = i.reshape runs bs ++ outer := by
  unfold reshape
  split_ifs with hopens hturns hcloses
  · rfl
  · cases bs with
    | nil => exact absurd rfl (hopen (.inl hturns))
    | cons b bs => rfl
  · cases bs with
    | nil => exact absurd rfl (hopen (.inr hcloses))
    | cons b bs => rfl
  · rfl

/-! ## Nesting from the front -/

theorem inside_nil : Inside [] := fun n i h => by simp at h

theorem wellNested_nil : WellNested [] := ⟨inside_nil, rfl⟩

theorem inside_snoc_iff :
    Inside (is ++ [i]) ↔ Inside is ∧ (i.turns = true ∨ i.closes = true → 0 < nesting is) := by
  constructor
  · intro h
    refine ⟨fun n j hj hshape => ?_, fun hshape => ?_⟩
    · obtain ⟨hlt, -⟩ := List.getElem?_eq_some_iff.mp hj
      have hpos := h n j (by rwa [List.getElem?_append_left hlt]) hshape
      rwa [List.take_append_of_le_length (Nat.le_of_lt hlt)] at hpos
    · have hpos := h is.length i List.getElem?_concat_length hshape
      rwa [List.take_left] at hpos
  · rintro ⟨h, hi⟩ n j hj hshape
    rcases Nat.lt_trichotomy n is.length with hlt | rfl | hgt
    · rw [List.getElem?_append_left hlt] at hj
      rw [List.take_append_of_le_length (Nat.le_of_lt hlt)]
      exact h n j hj hshape
    · rw [List.getElem?_concat_length] at hj
      cases hj
      rw [List.take_left]
      exact hi hshape
    · have hnone : (is ++ [i])[n]? = none := by
        rw [List.getElem?_eq_none_iff, List.length_append, List.length_singleton]
        omega
      rw [hnone] at hj
      cases hj

end Instruction

end UtxoSpend
