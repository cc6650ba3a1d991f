/-!
# Runs of stateful operations

An operation either ends with a value or fails, and leaves a state in both cases.  A sequence of
two operations succeeds exactly when both do, and fails with the first failure.  Proofs about
sequences take them apart with these lemmas and never unfold the monad.
-/

namespace UtxoSpend.Effect

variable {ε σ α β : Type} {x : EStateM ε σ α} {f : α → EStateM ε σ β} {s t : σ}

theorem bind_eq_ok {b : β} :
    (x >>= f) s = .ok b t ↔ ∃ a u, x s = .ok a u ∧ f a u = .ok b t := by
  simp only [bind, EStateM.bind]
  cases x s with
  | ok a u =>
      constructor
      · intro h
        exact ⟨a, u, rfl, h⟩
      · rintro ⟨a', u', hx, h⟩
        cases hx
        exact h
  | error e u => simp

theorem bind_of_ok {a : α} (h : x s = .ok a t) : (x >>= f) s = f a t := by
  simp only [bind, EStateM.bind, h]

theorem bind_of_error {e : ε} (h : x s = .error e t) : (x >>= f) s = .error e t := by
  simp only [bind, EStateM.bind, h]

theorem bind_eq_error {e : ε} :
    (x >>= f) s = .error e t ↔
      x s = .error e t ∨ ∃ a u, x s = .ok a u ∧ f a u = .error e t := by
  simp only [bind, EStateM.bind]
  cases x s with
  | ok a u =>
      constructor
      · intro h
        exact .inr ⟨a, u, rfl, h⟩
      · rintro (hx | ⟨a', u', hx, h⟩)
        · cases hx
        · cases hx
          exact h
  | error e' u => simp

@[simp] theorem pure_run (a : α) : (pure a : EStateM ε σ α) s = .ok a s := rfl

@[simp] theorem throw_run (e : ε) : (throw e : EStateM ε σ α) s = .error e s := rfl

@[simp] theorem modify_run (g : σ → σ) : (modify g : EStateM ε σ Unit) s = .ok () (g s) := rfl

@[simp] theorem get_bind_run (f : σ → EStateM ε σ β) : (get >>= f) s = f s s := rfl

@[simp] theorem modify_bind_run (g : σ → σ) (f : Unit → EStateM ε σ β) :
    (modify g >>= f) s = f () (g s) := rfl

/-! ## Operations without a state -/

theorem except_bind_eq_ok {x : Except ε α} {f : α → Except ε β} {b : β} :
    (x >>= f) = .ok b ↔ ∃ a, x = .ok a ∧ f a = .ok b := by
  cases x with
  | error e => simp [bind, Except.bind]
  | ok a => simp [bind, Except.bind]

/-! ## What an operation leaves -/

def answer : EStateM.Result ε σ α → Except ε α
  | .ok a _ => .ok a
  | .error e _ => .error e

/-- The state after an operation, whether or not it succeeded. -/
def left : EStateM.Result ε σ α → σ
  | .ok _ s => s
  | .error _ s => s

/-- Whatever the result is, the state before and the state after are related. -/
def Preserves (R : σ → σ → Prop) (x : EStateM ε σ α) : Prop := ∀ s, R s (left (x s))

theorem Preserves.of_ok {R : σ → σ → Prop} (h : Preserves R x) {a : α} (hx : x s = .ok a t) :
    R s t := by
  have hrel := h s
  rwa [hx] at hrel

theorem Preserves.of_error {R : σ → σ → Prop} (h : Preserves R x) {e : ε} (hx : x s = .error e t) :
    R s t := by
  have hrel := h s
  rwa [hx] at hrel

theorem Preserves.mono {R R' : σ → σ → Prop} (h : Preserves R x) (hle : ∀ {a b}, R a b → R' a b) :
    Preserves R' x := fun s => hle (h s)

theorem Preserves.pure {R : σ → σ → Prop} (hrefl : ∀ s, R s s) (a : α) :
    Preserves R (Pure.pure a : EStateM ε σ α) := hrefl

theorem Preserves.throw {R : σ → σ → Prop} (hrefl : ∀ s, R s s) (e : ε) :
    Preserves R (throw e : EStateM ε σ α) := hrefl

theorem Preserves.bind {R : σ → σ → Prop} (htrans : ∀ {a b c}, R a b → R b c → R a c)
    (h : Preserves R x) (h' : ∀ a, Preserves R (f a)) : Preserves R (x >>= f) := by
  intro s
  cases hx : x s with
  | error e t =>
      rw [bind_of_error hx]
      exact h.of_error hx
  | ok a t =>
      rw [bind_of_ok hx]
      exact htrans (h.of_ok hx) (h' a t)

theorem Preserves.ite {R : σ → σ → Prop} {p : Prop} [Decidable p] {y : EStateM ε σ α}
    (h : Preserves R x) (h' : Preserves R y) : Preserves R (if p then x else y) := by
  split
  · exact h
  · exact h'

/-! ## What an operation keeps and what it fails with -/

abbrev Any (_ : α) : Prop := True

/-- From states with the invariant `I` the operation fails only with failures in `P`; where it
succeeds the invariant still holds, and the result is in `R`. -/
structure Keeps (I : σ → Prop) (P : ε → Prop) (R : α → Prop) (x : EStateM ε σ α) : Prop where
  of_ok : ∀ {s a t}, I s → x s = .ok a t → I t ∧ R a
  of_error : ∀ {s e t}, I s → x s = .error e t → P e

namespace Keeps

variable {I : σ → Prop} {P : ε → Prop} {R : α → Prop} {R' : β → Prop}

theorem pure {a : α} (h : R a) : Keeps I P R (Pure.pure a : EStateM ε σ α) where
  of_ok hs hrun := by
    cases hrun
    exact ⟨hs, h⟩
  of_error _ hrun := by cases hrun

theorem throw {e : ε} (h : P e) : Keeps I P R (throw e : EStateM ε σ α) where
  of_ok _ hrun := by cases hrun
  of_error _ hrun := by
    cases hrun
    exact h

theorem get : Keeps I P Any (get : EStateM ε σ σ) where
  of_ok hs hrun := by
    cases hrun
    exact ⟨hs, trivial⟩
  of_error _ hrun := by cases hrun

theorem modify {g : σ → σ} (h : ∀ s, I s → I (g s)) :
    Keeps I P Any (modify g : EStateM ε σ Unit) where
  of_ok hs hrun := by
    cases hrun
    exact ⟨h _ hs, trivial⟩
  of_error _ hrun := by cases hrun

theorem bind (h : Keeps I P R x) (h' : ∀ a, R a → Keeps I P R' (f a)) :
    Keeps I P R' (x >>= f) where
  of_ok hs hrun := by
    obtain ⟨a, u, hx, hf⟩ := bind_eq_ok.mp hrun
    obtain ⟨hu, ha⟩ := h.of_ok hs hx
    exact (h' a ha).of_ok hu hf
  of_error hs hrun := by
    rcases bind_eq_error.mp hrun with hx | ⟨a, u, hx, hf⟩
    · exact h.of_error hs hx
    · obtain ⟨hu, ha⟩ := h.of_ok hs hx
      exact (h' a ha).of_error hu hf

theorem any (h : Keeps I P R x) : Keeps I P Any x :=
  ⟨fun hs hrun => ⟨(h.of_ok hs hrun).1, trivial⟩, h.of_error⟩

theorem ite {p : Prop} [Decidable p] {y : EStateM ε σ α} (h : Keeps I P R x)
    (h' : Keeps I P R y) : Keeps I P R (if p then x else y) := by
  split
  · exact h
  · exact h'

end Keeps

def FailsOnly (P : ε → Prop) (x : EStateM ε σ α) : Prop := ∀ s e t, x s = .error e t → P e

namespace FailsOnly

variable {P : ε → Prop}

theorem pure (a : α) : FailsOnly P (Pure.pure a : EStateM ε σ α) := fun _ _ _ h => by cases h

theorem bind (h : FailsOnly P x) (h' : ∀ a, FailsOnly P (f a)) :
    FailsOnly P (x >>= f) := by
  intro s e t hrun
  rcases bind_eq_error.mp hrun with hx | ⟨a, u, -, hf⟩
  · exact h s e t hx
  · exact h' a u e t hf

end FailsOnly

end UtxoSpend.Effect
