import Mathlib.Tactic.Common
import Mathlib.Algebra.Group.Nat.Defs
import Mathlib.Algebra.BigOperators.Group.List.Basic
import Mathlib.Algebra.GroupWithZero.Nat

/-!
# Counting whole units by subtraction

The loop `while (t >= len(k)) { t -= len(k); ++k; }` counts how many units fit into `t`, where the unit number
`k` has the length `len k`: years into seconds, for example.

* `whole_total_add`, `whole_spec` — **the loop undoes the sum**: from the sum and less than a unit more it finds
  the number of units and the rest, and what it finds adds up again.

Nothing here is about one particular clock.
-/

namespace Btos.Lib.Units

open List

/-! ### Units without end -/

section

variable (len : ℕ → ℕ)

/-- The number of the unit that `t` falls into, counted from `k` on, and what of `t` falls into it. -/
def whole (hlen : ∀ k, 0 < len k) (k t : ℕ) : ℕ × ℕ :=
  if _h : len k ≤ t then whole hlen (k + 1) (t - len k) else (k, t)
termination_by t
decreasing_by
  have := hlen k
  omega

/-- The length of `n` units from `k` on. -/
def total : ℕ → ℕ → ℕ
  | _, 0 => 0
  | k, n + 1 => len k + total (k + 1) n

theorem total_succ (k n : ℕ) : total len k (n + 1) = total len k n + len (k + n) := by
  induction n generalizing k with
  | zero => simp [total]
  | succ n ih =>
    rw [total, ih (k + 1), total, Nat.add_assoc, Nat.add_assoc, Nat.add_comm 1 n]

theorem total_const (u : ℕ) (k n : ℕ) : total (fun _ => u) k n = n * u := by
  induction n generalizing k with
  | zero => simp [total]
  | succ n ih => rw [total, ih, Nat.succ_mul, Nat.add_comm]

theorem le_total (hu : ∀ k, u ≤ len k) (k n : ℕ) : n * u ≤ total len k n := by
  induction n generalizing k with
  | zero => simp
  | succ n ih =>
    have hfirst := hu k
    have hrest := ih (k + 1)
    rw [Nat.succ_mul, total]
    omega

theorem total_le (hu : ∀ k, len k ≤ u) (k n : ℕ) : total len k n ≤ n * u := by
  induction n generalizing k with
  | zero => simp [total]
  | succ n ih =>
    have hfirst := hu k
    have hrest := ih (k + 1)
    rw [Nat.succ_mul, total]
    omega

/-- **The loop finds the number of units and the rest.** -/
theorem whole_total_add (hlen : ∀ k, 0 < len k) (n : ℕ) : ∀ k r, r < len (k + n) →
    whole len hlen k (total len k n + r) = (k + n, r) := by
  induction n with
  | zero =>
    intro k r hr
    rw [whole, dif_neg (by simpa [total] using hr)]
    simp [total]
  | succ n ih =>
    intro k r hr
    have hsub : total len k (n + 1) + r - len k = total len (k + 1) n + r := by
      rw [total]
      omega
    have hle : len k ≤ total len k (n + 1) + r := by
      rw [total]
      omega
    have hnext : k + (n + 1) = k + 1 + n := by omega
    rw [whole, dif_pos hle, hsub, hnext]
    apply ih
    rwa [← hnext]

/-- **What the loop finds adds up.** -/
theorem whole_spec (hlen : ∀ k, 0 < len k) (k t : ℕ) : ∃ n r, whole len hlen k t = (k + n, r) ∧ r < len (k + n) ∧
    t = total len k n + r := by
  induction t using Nat.strongRecOn generalizing k with
  | ind t ih =>
    by_cases h : len k ≤ t
    · have hpos := hlen k
      obtain ⟨n, r, hwhole, hr, hsum⟩ := ih (t - len k) (by omega) (k + 1)
      have hnext : k + 1 + n = k + (n + 1) := by omega
      rw [hnext] at hwhole hr
      refine ⟨n + 1, r, ?_, hr, ?_⟩
      · rw [whole, dif_pos h, hwhole]
      · rw [total]
        omega
    · refine ⟨0, t, ?_, by simpa using h, by simp [total]⟩
      rw [whole, dif_neg h, Nat.add_zero]

end

theorem whole_const (hlen : ∀ _ : ℕ, 0 < u) (k t : ℕ) : whole (fun _ => u) hlen k t = (k + t / u, t % u) := by
  have h := whole_total_add (fun _ => u) hlen (t / u) k (t % u) (Nat.mod_lt t (hlen 0))
  rwa [total_const, Nat.mul_comm, Nat.div_add_mod] at h

/-! ### A table of units -/

/-- The loop over a table of lengths; it fails when it runs off the table. -/
def scan : List ℕ → ℕ → ℕ → Option (ℕ × ℕ)
  | [], _, _ => none
  | l :: ls, k, t => if l ≤ t then scan ls (k + 1) (t - l) else some (k, t)

theorem scan_take_add (ls : List ℕ) : ∀ (k i r l : ℕ), ls[i]? = some l → r < l →
    scan ls k ((ls.take i).sum + r) = some (k + i, r) := by
  induction ls with
  | nil =>
    intro k i r l hl
    simp at hl
  | cons a ls ih =>
    intro k i r l hl hr
    cases i with
    | zero =>
      simp only [getElem?_cons_zero, Option.some.injEq] at hl
      subst hl
      simp [scan, Nat.not_le.2 hr]
    | succ i =>
      rw [take_succ_cons, sum_cons, scan, if_pos (by omega)]
      have hsub : a + (ls.take i).sum + r - a = (ls.take i).sum + r := by omega
      rw [hsub, ih (k + 1) i r l hl hr]
      congr 2
      omega

theorem scan_spec (ls : List ℕ) : ∀ (k t : ℕ), t < ls.sum → ∃ i r l, scan ls k t = some (k + i, r) ∧
    ls[i]? = some l ∧ r < l ∧ t = (ls.take i).sum + r := by
  induction ls with
  | nil =>
    intro k t ht
    simp at ht
  | cons a ls ih =>
    intro k t ht
    rw [sum_cons] at ht
    by_cases h : a ≤ t
    · obtain ⟨i, r, l, hscan, hl, hr, hsum⟩ := ih (k + 1) (t - a) (by omega)
      refine ⟨i + 1, r, l, ?_, by simpa using hl, hr, ?_⟩
      · rw [scan, if_pos h, hscan]
        congr 2
        omega
      · rw [take_succ_cons, sum_cons]
        omega
    · exact ⟨0, t, a, by simp [scan, h], rfl, by omega, by simp⟩

end Btos.Lib.Units
