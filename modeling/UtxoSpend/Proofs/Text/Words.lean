import Mathlib
import UtxoSpend.Text.Blank

/-!
# Words joined by blanks

A text falls apart at every blank: it has the words before the blank and the words behind it.  Main
statement: joined by spaces, texts have the words that they have one by one; so a text without
blanks comes back as it is, except that an empty one is gone.
-/

namespace UtxoSpend.Text

variable {x : List Char} {c : Char}

theorem wordsFrom_append_blank (hc : isBlank c = true) (word x y : List Char) :
    wordsFrom word (x ++ c :: y) = wordsFrom word x ++ words y := by
  induction x generalizing word with
  | nil => cases word <;> simp [wordsFrom, words, hc]
  | cons d x ih =>
      rw [List.cons_append, wordsFrom, wordsFrom]
      split_ifs
      · exact ih []
      · rw [ih [], List.cons_append]
      · exact ih (d :: word)

theorem words_append_blank (hc : isBlank c = true) (x y : List Char) :
    words (x ++ c :: y) = words x ++ words y :=
  wordsFrom_append_blank hc [] x y

/-- Joining texts by a space joins their words. -/
theorem words_intercalate (texts : List (List Char)) :
    words ([' '].intercalate texts) = texts.flatMap words := by
  induction texts with
  | nil => rfl
  | cons x texts ih =>
      cases texts with
      | nil => simp
      | cons y texts =>
          rw [List.intercalate_cons_cons, List.append_assoc, List.singleton_append,
            words_append_blank rfl, ih, ← List.flatMap_cons]

theorem wordsFrom_of_no_blank (hx : ∀ c ∈ x, isBlank c = false) (word : List Char) :
    wordsFrom word x = if word = [] ∧ x = [] then [] else [word.reverse ++ x] := by
  induction x generalizing word with
  | nil => cases word <;> simp [wordsFrom]
  | cons c x ih =>
      rw [List.forall_mem_cons] at hx
      have hc : ¬isBlank c = true := by
        rw [hx.1]
        exact Bool.false_ne_true
      rw [wordsFrom, if_neg hc, ih hx.2]
      simp

theorem words_of_no_blank (hx : ∀ c ∈ x, isBlank c = false) :
    words x = if x = [] then [] else [x] := by
  rw [words, wordsFrom_of_no_blank hx]
  simp

end UtxoSpend.Text
