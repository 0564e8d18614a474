/-
Outcomes of computations that have a state and may fail: how the state after a run
stands to the state before it. A relation that is reflexive and transitive passes
from the parts of a computation to the whole.

* `Results`, `Failures`: the relation holds after every result, after every failure;
* `Outcomes`: both;
* `bind_ok_iff`, `bind_error_iff`: the runs of a sequence of two computations;
* `Results.bind`, `Failures.bind`, `Outcomes.bind`: the rules for such a sequence.
-/
import Mathlib.Order.Defs.Unbundled
import Mathlib.Tactic.Lemma

namespace StackVM

variable {ε σ α β : Type}

/-- Every result of `x` leaves a state that is related to the one before. -/
def Results (R : σ → σ → Prop) (x : EStateM ε σ α) : Prop :=
  ∀ s a s', x s = .ok a s' → R s s'

/-- Every failure of `x` leaves a state that is related to the one before. -/
def Failures (R : σ → σ → Prop) (x : EStateM ε σ α) : Prop :=
  ∀ s e s', x s = .error e s' → R s s'

/-- Whatever `x` comes to, it leaves a state that is related to the one before. -/
structure Outcomes (R : σ → σ → Prop) (x : EStateM ε σ α) : Prop where
  results : Results R x
  failures : Failures R x

/-! ### Sequences -/

/-- After a result of its first part a sequence goes on with the second. -/
lemma bind_of_ok {x : EStateM ε σ α} {f : α → EStateM ε σ β} {s s' : σ} {a : α}
    (h : x s = .ok a s') : (x >>= f) s = f a s' := by
  simp only [bind, EStateM.bind, h]

/-- A sequence gives a result when both of its parts do. -/
lemma bind_ok_iff {x : EStateM ε σ α} {f : α → EStateM ε σ β} {s s'' : σ} {b : β} :
    (x >>= f) s = .ok b s'' ↔ ∃ a s', x s = .ok a s' ∧ f a s' = .ok b s'' := by
  simp only [bind, EStateM.bind]
  cases x s with
  | ok a t =>
      constructor
      · intro h
        exact ⟨a, t, rfl, h⟩
      · rintro ⟨_, _, ⟨⟩, h⟩
        exact h
  | error e t => simp

/-- A sequence fails when its first part does, or its second part after it. -/
lemma bind_error_iff {x : EStateM ε σ α} {f : α → EStateM ε σ β} {s s'' : σ} {e : ε} :
    (x >>= f) s = .error e s'' ↔
      x s = .error e s'' ∨ ∃ a s', x s = .ok a s' ∧ f a s' = .error e s'' := by
  simp only [bind, EStateM.bind]
  cases x s with
  | ok a t =>
      constructor
      · intro h
        exact .inr ⟨a, t, rfl, h⟩
      · rintro (⟨⟨⟩⟩ | ⟨_, _, ⟨⟩, h⟩)
        exact h
  | error e t => simp

variable {R : σ → σ → Prop}

/-- What never fails adds no failure. -/
lemma Failures.bind_of_never {x : EStateM ε σ α} {f : α → EStateM ε σ β} (hx : Failures R x)
    (hf : ∀ a s e s', f a s ≠ .error e s') : Failures R (x >>= f) := by
  intro s e s'' h
  rcases bind_error_iff.mp h with h₁ | ⟨a, s', -, h₂⟩
  · exact hx s e s'' h₁
  · exact absurd h₂ (hf a s' e s'')

section Trans

variable [IsTrans σ R]

/-- The results of a sequence. -/
lemma Results.bind {x : EStateM ε σ α} {f : α → EStateM ε σ β} (hx : Results R x)
    (hf : ∀ a, Results R (f a)) : Results R (x >>= f) := by
  intro s b s'' h
  obtain ⟨a, s', h₁, h₂⟩ := bind_ok_iff.mp h
  exact IsTrans.trans _ _ _ (hx s a s' h₁) (hf a s' b s'' h₂)

/-- The failures of a sequence: its first part has to be steady, since the second
may fail after it. -/
lemma Failures.bind {x : EStateM ε σ α} {f : α → EStateM ε σ β} (hx : Outcomes R x)
    (hf : ∀ a, Failures R (f a)) : Failures R (x >>= f) := by
  intro s e s'' h
  rcases bind_error_iff.mp h with h₁ | ⟨a, s', h₁, h₂⟩
  · exact hx.failures s e s'' h₁
  · exact IsTrans.trans _ _ _ (hx.results s a s' h₁) (hf a s' e s'' h₂)

/-- The outcomes of a sequence. -/
lemma Outcomes.bind {x : EStateM ε σ α} {f : α → EStateM ε σ β} (hx : Outcomes R x)
    (hf : ∀ a, Outcomes R (f a)) : Outcomes R (x >>= f) :=
  ⟨hx.results.bind fun a => (hf a).results, Failures.bind hx fun a => (hf a).failures⟩

end Trans

/-! ### Single steps -/

/-- A change of the state does not fail. -/
lemma Failures.modifyGet (g : σ → α × σ) :
    Failures R (MonadState.modifyGet g : EStateM ε σ α) := by
  intro s e s' h
  cases h

/-- A change of the state that keeps to the relation. -/
lemma Outcomes.modifyGet {g : σ → α × σ} (hg : ∀ s, R s (g s).2) :
    Outcomes R (MonadState.modifyGet g : EStateM ε σ α) := by
  refine ⟨?_, .modifyGet g⟩
  intro s a s' h
  cases h
  exact hg s

section Refl

variable [Std.Refl R]

/-- A value that is just given. -/
lemma Outcomes.pure (a : α) : Outcomes R (Pure.pure a : EStateM ε σ α) := by
  refine ⟨?_, ?_⟩
  · intro s b s' h
    cases h
    exact refl s
  · intro s e s' h
    cases h

/-- A failure at once. -/
lemma Outcomes.throw (e : ε) : Outcomes R (throw e : EStateM ε σ α) := by
  refine ⟨?_, ?_⟩
  · intro s b s' h
    cases h
  · intro s e' s' h
    cases h
    exact refl s

/-- A look at the state. -/
lemma Outcomes.get : Outcomes R (get : EStateM ε σ σ) := by
  refine ⟨?_, ?_⟩
  · intro s b s' h
    cases h
    exact refl s
  · intro s e s' h
    cases h

end Refl

/-- A change of the value changes no failure. -/
lemma Failures.map {x : EStateM ε σ α} (hx : Failures R x) (g : α → β) :
    Failures R (g <$> x) := by
  rw [map_eq_pure_bind]
  exact hx.bind_of_never fun a s e s' h => by cases h

/-- A change of the value changes no outcome. -/
lemma Outcomes.map [IsPreorder σ R] {x : EStateM ε σ α} (hx : Outcomes R x) (g : α → β) :
    Outcomes R (g <$> x) := by
  rw [map_eq_pure_bind]
  exact hx.bind fun a => .pure (g a)

end StackVM
