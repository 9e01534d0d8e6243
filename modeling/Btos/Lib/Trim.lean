import Mathlib.Data.List.DropRight
import Mathlib.Data.List.TakeWhile
import Mathlib.Data.List.Count

/-!
# Lists without a value at their ends

* `strip_eq_self_iff` — **nothing is taken away exactly if** no end is `a`.

Nothing here is about one particular program.
-/

namespace Btos.Lib.Trim

open List

variable {α : Type*} [DecidableEq α]

/-- The list without `a` at its ends. -/
def strip (a : α) (l : List α) : List α := (l.rdropWhile (fun x => x = a)).dropWhile fun x => x = a

theorem dropWhile_head?_ne (a : α) (l : List α) : (l.dropWhile fun x => x = a).head? ≠ some a := by
  induction l with
  | nil => simp
  | cons x l ih =>
    by_cases hx : x = a
    · simpa [dropWhile_cons, hx] using ih
    · simp [hx]

theorem rdropWhile_eq_self {a : α} {l : List α} (h : l.getLast? ≠ some a) :
    l.rdropWhile (fun x => x = a) = l := by
  rw [rdropWhile_eq_self_iff]
  intro hl heq
  rw [getLast?_eq_getLast_of_ne_nil hl] at h
  exact h (by simpa using heq)

theorem dropWhile_eq_self {a : α} {l : List α} (h : l.head? ≠ some a) : (l.dropWhile fun x => x = a) = l := by
  cases l with
  | nil => rfl
  | cons x l =>
    have hx : x ≠ a := by simpa using h
    simp [hx]

/-- **No end is `a`.** -/
theorem strip_eq_self_iff {a : α} {l : List α} : strip a l = l ↔ l.head? ≠ some a ∧ l.getLast? ≠ some a := by
  constructor
  · intro h
    have hhead : l.head? ≠ some a := by
      rw [← h]
      exact dropWhile_head?_ne a _
    refine ⟨hhead, fun hlast => ?_⟩
    -- the part that is left is as long as the list
    have hpre : (l.rdropWhile fun x => x = a) <+: l := rdropWhile_prefix _ l
    have hsuf : strip a l <:+ l.rdropWhile fun x => x = a := dropWhile_suffix _
    have hlen := hsuf.length_le
    rw [h] at hlen
    have heq : (l.rdropWhile fun x => x = a) = l := hpre.eq_of_length (le_antisymm hpre.length_le hlen)
    have hne : l ≠ [] := by
      rintro rfl
      cases hlast
    refine rdropWhile_eq_self_iff.mp heq hne ?_
    rw [getLast?_eq_getLast_of_ne_nil hne] at hlast
    simpa using hlast
  · rintro ⟨hhead, hlast⟩
    rw [strip, rdropWhile_eq_self hlast, dropWhile_eq_self hhead]

theorem count_dropWhile (h : b ≠ a) (l : List α) : (l.dropWhile fun x => x = a).count b = l.count b := by
  induction l with
  | nil => rfl
  | cons x l ih =>
    by_cases hx : x = a
    · rw [dropWhile_cons, if_pos (by simpa using hx), ih, hx, count_cons_of_ne (Ne.symm h)]
    · rw [dropWhile_cons, if_neg (by simpa using hx)]

/-- **Other values stay.** -/
theorem count_strip (h : b ≠ a) (l : List α) : (strip a l).count b = l.count b := by
  rw [strip, count_dropWhile h, List.rdropWhile, count_reverse, count_dropWhile h, count_reverse]

/-- **A copy in front makes no difference.** -/
theorem strip_cons_self (a : α) (l : List α) : strip a (a :: l) = strip a l := by
  rw [strip, strip, List.rdropWhile, reverse_cons, dropWhile_append, List.rdropWhile]
  by_cases h : (l.reverse.dropWhile fun x => x = a) = []
  · rw [h]
    simp
  · rw [if_neg (by simpa using h), reverse_append, reverse_singleton, singleton_append,
      dropWhile_cons_of_pos (by simp)]

end Btos.Lib.Trim
