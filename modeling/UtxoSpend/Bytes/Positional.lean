/-!
# Positional notation in any base

The shortest digits of a number, least significant first. Base58 texts and script numbers are both
written this way, in bases 58 and 256.
-/

namespace UtxoSpend.Positional

/-- The digits of `n`, least significant first; zero has none. -/
def digits (base n : Nat) : List Nat :=
  if _h : 2 ≤ base ∧ n ≠ 0 then n % base :: digits base (n / base) else []
termination_by n
decreasing_by exact Nat.div_lt_self (Nat.pos_of_ne_zero _h.2) _h.1

def value (base : Nat) : List Nat → Nat
  | [] => 0
  | d :: r => d + base * value base r

theorem digits_zero (base : Nat) : digits base 0 = [] := by
  rw [digits]
  simp

theorem digits_of_pos {base n : Nat} (hb : 2 ≤ base) (hn : n ≠ 0) :
    digits base n = n % base :: digits base (n / base) := by
  rw [digits, dif_pos ⟨hb, hn⟩]

theorem value_digits {base : Nat} (hb : 2 ≤ base) (n : Nat) : value base (digits base n) = n := by
  induction n using Nat.strongRecOn with
  | ind n ih =>
    by_cases hn : n = 0
    · rw [hn, digits_zero]
      rfl
    · rw [digits_of_pos hb hn, value, ih _ (Nat.div_lt_self (Nat.pos_of_ne_zero hn) hb)]
      exact Nat.mod_add_div n base

theorem lt_of_mem_digits {base n d : Nat} (h : d ∈ digits base n) : d < base := by
  induction n using Nat.strongRecOn with
  | ind n ih =>
    rw [digits] at h
    split at h
    · rename_i hcond
      rcases List.mem_cons.mp h with rfl | h
      · exact Nat.mod_lt _ (by omega)
      · exact ih _ (Nat.div_lt_self (Nat.pos_of_ne_zero hcond.2) hcond.1) h
    · cases h

end UtxoSpend.Positional
