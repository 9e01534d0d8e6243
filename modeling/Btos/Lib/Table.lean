import Mathlib.Tactic.Common

/-!
# Records found by a key

A list of records, each found by its key from the start of the list, and a method of the record that is found.

* `find?_updateFirst` — **what is found afterwards**, under every key.
-/

namespace Btos.Lib.Table

open List Option

variable {α κ : Type*}

/-- The first record that meets `p` is replaced by what `f` makes of it. -/
def updateFirst (p : α → Bool) (f : α → Option α) : List α → Option (List α)
  | [] => none
  | x :: l => if p x then (f x).map fun y => y :: l else (updateFirst p f l).map fun l' => x :: l'

variable [DecidableEq κ] {key : α → κ}

/-- **After a method that keeps the keys**, its record is found changed and all others as they were. -/
theorem find?_updateFirst (hf : ∀ x y, f x = some y → key y = key x) (h : updateFirst (fun x => key x = k) f l = some l') (j : κ) :
    (l'.find? fun x => key x = j) =
      if j = k then (l.find? fun x => key x = k).bind f else l.find? fun x => key x = j := by
  induction l generalizing l' with
  | nil => simp [updateFirst] at h
  | cons x l ih =>
    by_cases hx : key x = k
    · simp only [updateFirst, hx, decide_true, ite_true, map_eq_some_iff] at h
      obtain ⟨y, hy, rfl⟩ := h
      have hyk : key y = k := (hf x y hy).trans hx
      by_cases hj : j = k
      · simp [hj, hx, hy, hyk]
      · have hkj : k ≠ j := Ne.symm hj
        simp [hj, hx, hyk, hkj]
    · simp only [updateFirst, hx, decide_false, Bool.false_eq_true, ite_false, map_eq_some_iff] at h
      obtain ⟨l1, hl1, rfl⟩ := h
      by_cases hj : key x = j
      · have hjk : j ≠ k := fun he => hx (hj.trans he)
        simp [hj, hjk]
      · simp [hj, hx, ih hl1]

theorem updateFirst_isSome_iff : (updateFirst p f l).isSome = ((l.find? p).bind f).isSome := by
  induction l with
  | nil => rfl
  | cons x l ih =>
    cases hx : p x with
    | true => simp [updateFirst, hx]
    | false => simp [updateFirst, hx, ih]

theorem find?_append_singleton (l : List α) (x : α) (j : κ) : ((l ++ [x]).find? fun y => key y = j) =
      (l.find? fun y => key y = j).or (if key x = j then some x else none) := by
  by_cases h : key x = j <;> simp [find?_append, h]

theorem find?_filter_ne (l : List α) (k j : κ) : ((l.filter fun y => key y ≠ k).find? fun y => key y = j) =
      if j = k then none else l.find? fun y => key y = j := by
  rw [find?_filter]
  by_cases hj : j = k
  · rw [if_pos hj, find?_eq_none]
    intro y _
    simp [hj]
  · rw [if_neg hj]
    congr 1
    funext y
    by_cases hy : key y = j
    · simp [hy, hj]
    · simp [hy]

/-! ### Records found by their index -/

theorem getElem?_snoc_iff : (l ++ [x])[i]? = some y ↔ l[i]? = some y ∨ i = l.length ∧ y = x := by
  rcases Nat.lt_trichotomy i l.length with h | h | h
  · simp [getElem?_append_left h, Nat.ne_of_lt h]
  · simp [h, eq_comm]
  · have hne : i ≠ l.length := by omega
    have hnone : (l ++ [x])[i]? = none := by
      rw [getElem?_eq_none_iff, length_append]
      exact h
    simp [hnone, hne, getElem?_eq_none_iff.mpr (Nat.le_of_lt h)]

theorem getElem?_set_iff {l : List α} {i j : ℕ} {x y z : α} (h : l[i]? = some z) :
    (l.set i x)[j]? = some y ↔ j = i ∧ y = x ∨ j ≠ i ∧ l[j]? = some y := by
  have hi : i < l.length := (List.getElem?_eq_some_iff.mp h).1
  by_cases hj : j = i
  · subst hj
    simp [hi, eq_comm]
  · simp [hj, Ne.symm hj]

end Btos.Lib.Table
