import Mathlib.Logic.Function.Basic
import Mathlib.Data.Nat.Notation

/-!
# Tables of slots

A list whose entries may be empty, as a function from indices: an index without a slot is empty too.

* `slot_set`, `slot_snoc` — **a slot that is filled or made empty, and one more slot**, as updates of the function.
-/

namespace Btos.Lib.Slots

open Function List

variable {α : Type*}

def slot (l : List (Option α)) (i : ℕ) : Option α := (l[i]?).join

theorem slot_eq_some : slot l i = some x ↔ l[i]? = some (some x) := by
  rw [slot]
  cases l[i]? with
  | none => simp
  | some o => cases o with
    | none | some y => simp

theorem slot_eq_none_of_le (h : l.length ≤ i) : slot l i = none := by
  rw [slot, getElem?_eq_none h]
  rfl

theorem lt_of_slot (h : slot l i = some x) : i < l.length :=
  (List.getElem?_eq_some_iff.mp (slot_eq_some.mp h)).1

theorem slot_set (hi : i < l.length) (x : Option α) : slot (l.set i x) = update (slot l) i x := by
  funext j
  by_cases hj : j = i
  · subst hj
    rw [slot, getElem?_set_self hi, update_self]
    rfl
  · rw [slot, getElem?_set_ne (Ne.symm hj), update_of_ne hj]
    rfl

theorem slot_snoc (l : List (Option α)) (x : Option α) : slot (l ++ [x]) = update (slot l) l.length x := by
  funext j
  rcases Nat.lt_trichotomy j l.length with hj | hj | hj
  · rw [slot, getElem?_append_left hj, update_of_ne (Nat.ne_of_lt hj)]
    rfl
  · subst hj
    rw [slot, getElem?_concat_length, update_self]
    rfl
  · have hlen : (l ++ [x]).length ≤ j := by
      rw [length_append]
      exact hj
    rw [slot_eq_none_of_le hlen, update_of_ne (Nat.ne_of_gt hj), slot_eq_none_of_le (Nat.le_of_lt hj)]

/-- **What is in a table that has been updated**: the new entry, or an old one. -/
theorem update_eq_some {f : ℕ → Option α} {i j : ℕ} {x : Option α} {y : α} (h : update f i x j = some y) :
    (j = i ∧ x = some y) ∨ (j ≠ i ∧ f j = some y) := by
  by_cases hj : j = i
  · rw [hj, update_self] at h
    exact .inl ⟨hj, h⟩
  · rw [update_of_ne hj] at h
    exact .inr ⟨hj, h⟩

theorem update_none_eq_some {f : ℕ → Option α} {i j : ℕ} {y : α} (h : update f i none j = some y) :
    j ≠ i ∧ f j = some y :=
  (update_eq_some h).resolve_left fun h => absurd h.2.symm (Option.some_ne_none y)

end Btos.Lib.Slots
