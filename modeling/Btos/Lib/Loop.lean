import Mathlib.Data.Nat.Notation

/-!
# Counted loops that may fail

`turns turn n s` runs `turn 0`, …, `turn (n - 1)` from `s`, one after the other, and fails with the
first turn that fails: the loop `for (i = 0; i < n; ++i)` over a state.

* `turns_invariant` — **the loop rule**: what holds before the first turn, and after each turn if it
  held before that turn, holds at the end.
-/

namespace Btos.Lib.Loop

variable {σ : Type*}

/-- `n` turns from `s`. -/
def turns (turn : ℕ → σ → Option σ) : ℕ → σ → Option σ
  | 0, s => some s
  | n + 1, s => (turns turn n s).bind (turn n)

theorem turns_succ (h : turns turn (n + 1) s = some t) : ∃ u, turns turn n s = some u ∧ turn n u = some t :=
  Option.bind_eq_some_iff.1 h

/-- **The loop rule.**  The step may use that its state is the one the loop has there. -/
theorem turns_invariant (P : ℕ → σ → Prop) (h₀ : P 0 s) (n : ℕ)
    (hstep : ∀ i < n, ∀ u v, turns turn i s = some u → P i u → turn i u = some v → P (i + 1) v) :
    ∀ {t : σ}, turns turn n s = some t → P n t := by
  induction n with
  | zero =>
    intro t h
    cases h
    exact h₀
  | succ n ih =>
    intro t h
    obtain ⟨u, hu, ht⟩ := turns_succ h
    have hPu := ih (fun i hi => hstep i (Nat.lt_succ_of_lt hi)) hu
    exact hstep n (Nat.lt_succ_self n) u t hu hPu ht

end Btos.Lib.Loop
