import Mathlib.Data.Nat.Notation
import Mathlib.Tactic.Common

/-!
# A machine that takes some steps more

Two deterministic systems, given by their step functions `f : α → Option α` and `g : β → Option β`; `none` means that a
state is the last one.  The first one, the machine, may take steps that the second one does not see.

* `Simulates` — **a relation that every step of the machine keeps**: either the other system takes a step, or it stays
  where it is and a number gets smaller.
-/

namespace Btos.Lib.Simulation

open Option

variable {α β : Type*}

/-- `n` steps. -/
def iterate (f : α → Option α) : ℕ → α → Option α
  | 0, a => some a
  | n + 1, a => (f a).bind (iterate f n)

theorem iterate_one (h : f a = some a') : iterate f 1 a = some a' := by
  rw [iterate, h]
  rfl

theorem iterate_add (f : α → Option α) (m n : ℕ) (a : α) :
    iterate f (m + n) a = (iterate f m a).bind (iterate f n) := by
  induction m generalizing a with
  | zero => rw [Nat.zero_add, iterate, bind_some]
  | succ m ih =>
    rw [Nat.succ_add, iterate, iterate, bind_assoc]
    exact bind_congr fun a' _ => ih a'

theorem iterate_trans (hab : iterate f m a = some b)
    (hbc : iterate f n b = some c) : iterate f (m + n) a = some c := by
  rw [iterate_add, hab, bind_some, hbc]

/-- The first system does what the second one does, with steps in between. -/
structure Simulates (f : α → Option α) (g : β → Option β) (R : α → β → Prop) where
  /-- What gets smaller in the steps in between. -/
  measure : α → ℕ
  step : ∀ a b a', R a b → f a = some a' → (R a' b ∧ measure a' < measure a) ∨ ∃ b', g b = some b' ∧ R a' b'
  stop : ∀ a b, R a b → f a = none → g b = none

namespace Simulates

variable {f : α → Option α} {g : β → Option β} {R : α → β → Prop} (sim : Simulates f g R)
include sim

/-- **Wherever the machine is**, the other system is. -/
theorem forward (hR : R a b) (h : iterate f n a = some a') : ∃ k b', iterate g k b = some b' ∧ R a' b' := by
  induction n generalizing a b with
  | zero =>
    cases h
    exact ⟨0, b, rfl, hR⟩
  | succ n ih =>
    obtain ⟨a1, ha1, hrest⟩ := bind_eq_some_iff.mp h
    rcases sim.step a b a1 hR ha1 with ⟨hR1, -⟩ | ⟨b1, hb1, hR1⟩
    · exact ih hR1 hrest
    · obtain ⟨k, b', hk, hR'⟩ := ih hR1 hrest
      exact ⟨1 + k, b', iterate_trans (iterate_one hb1) hk, hR'⟩

/-- The steps in between come to an end. -/
theorem settles (hR : R a b) : ∃ k a', iterate f k a = some a' ∧
    ((f a' = none ∧ R a' b) ∨ ∃ b', g b = some b' ∧ R a' b') := by
  induction hm : sim.measure a using Nat.strongRecOn generalizing a with
  | _ m ih =>
    cases ha : f a with
    | none => exact ⟨0, a, rfl, .inl ⟨ha, hR⟩⟩
    | some a1 =>
      rcases sim.step a b a1 hR ha with ⟨hR1, hlt⟩ | hnext
      · obtain ⟨k, a', hk, hcase⟩ := ih _ (hm ▸ hlt) hR1 rfl
        exact ⟨1 + k, a', iterate_trans (iterate_one ha) hk, hcase⟩
      · exact ⟨1, a1, iterate_one ha, .inr hnext⟩

theorem backward_one (hR : R a b) (h : g b = some b') : ∃ k a', iterate f k a = some a' ∧ R a' b' := by
  obtain ⟨k, a', hk, ⟨ha, hR'⟩ | ⟨b1, hb1, hR'⟩⟩ := sim.settles hR
  · rw [sim.stop a' b hR' ha] at h
    cases h
  · cases h.symm.trans hb1
    exact ⟨k, a', hk, hR'⟩

/-- **Wherever the other system is**, the machine gets. -/
theorem backward (hR : R a b) (h : iterate g n b = some b') : ∃ k a', iterate f k a = some a' ∧ R a' b' := by
  induction n generalizing a b with
  | zero =>
    cases h
    exact ⟨0, a, rfl, hR⟩
  | succ n ih =>
    obtain ⟨b1, hb1, hrest⟩ := bind_eq_some_iff.mp h
    obtain ⟨k1, a1, hk1, hR1⟩ := sim.backward_one hR hb1
    obtain ⟨k2, a', hk2, hR'⟩ := ih hR1 hrest
    exact ⟨k1 + k2, a', iterate_trans hk1 hk2, hR'⟩

/-- **Where the other system ends**, the machine ends after some steps. -/
theorem ends (hR : R a b) (h : g b = none) : ∃ k a', iterate f k a = some a' ∧ f a' = none ∧ R a' b := by
  obtain ⟨k, a', hk, ⟨ha, hR'⟩ | ⟨b1, hb1, -⟩⟩ := sim.settles hR
  · exact ⟨k, a', hk, ha, hR'⟩
  · rw [h] at hb1
    cases hb1

end Simulates

end Btos.Lib.Simulation
