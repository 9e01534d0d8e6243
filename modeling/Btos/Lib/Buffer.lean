import Mathlib.Tactic.Common
import Mathlib.Data.List.Induction
import Mathlib.Algebra.Order.Ring.Nat

/-!
# A buffer that is filled from the front

An array of a fixed size of which a front part holds a text and the rest holds a filler `z` (the zero character,
for strings of C).  Text is appended by writing behind it and taken away by writing the filler over its end.

* `pad z size l` — **the array of that size with the text `l`**;
* `eraseBack`, `eraseBack_pad` — **walking back to a mark**, with the filler written over everything behind it.
-/

namespace Btos.Lib.Buffer

open List Option

variable {α : Type*}

def write (b : List α) (i : ℕ) (x : α) : Option (List α) :=
  if i < b.length then some (b.set i x) else none

/-- The array of the given size that holds the text. -/
def pad (z : α) (size : ℕ) (l : List α) : List α := l ++ List.replicate (size - l.length) z

variable {z : α} {size : ℕ}

theorem length_pad (h : l.length ≤ size) : (pad z size l).length = size := by
  simp [pad]
  omega

/-- **Appending.** -/
theorem write_pad_push (h : l.length < size) (x : α) :
    write (pad z size l) l.length x = some (pad z size (l ++ [x])) := by
  rw [write]
  obtain ⟨n, hn⟩ : ∃ n, size - l.length = n + 1 := ⟨size - l.length - 1, by omega⟩
  have hrest : size - (l.length + 1) = n := by omega
  simp [pad, hn, hrest, replicate_succ]

theorem write_pad_end (h : l.length < size) : write (pad z size l) l.length z = some (pad z size l) := by
  rw [write]
  obtain ⟨n, hn⟩ : ∃ n, size - l.length = n + 1 := ⟨size - l.length - 1, by omega⟩
  simp [pad, hn, replicate_succ]

/-- **Taking the last element away.** -/
theorem write_pad_pop (h : l.length < size) :
    write (pad z size (l ++ [x])) l.length z = some (pad z size l) := by
  have hlen : (l ++ [x]).length ≤ size := by
    rw [length_append]
    exact h
  rw [write]
  obtain ⟨n, hn⟩ : ∃ n, size - l.length = n + 1 := ⟨size - l.length - 1, by omega⟩
  have hrest : size - (l ++ [x]).length = n := by
    rw [length_append, length_singleton]
    omega
  rw [pad, hrest, pad, hn, replicate_succ]
  simp

theorem write_pad_same (h : l.length < size) :
    write (pad z size (l ++ [x])) l.length x = some (pad z size (l ++ [x])) := by
  have hlen : (l ++ [x]).length ≤ size := by
    rw [length_append]
    exact h
  rw [write]
  simp [pad, append_assoc]

theorem write_pad_first (h : 0 < size) : write (pad z size [x]) 0 y = some (pad z size [y]) := by
  rw [write, if_pos (by rw [length_pad (show [x].length ≤ size from h)]; exact h)]
  rfl

theorem getElem?_pad_of_lt (h : i < l.length) : (pad z size l)[i]? = l[i]? := by
  rw [pad, getElem?_append_left h]

theorem getElem?_pad_end (h : l.length < size) : (pad z size l)[l.length]? = some z := by
  rw [pad, getElem?_append_right (le_refl _), getElem?_replicate, if_pos (by omega)]

theorem take_drop_pad (a b : List α) : ((pad z size (a ++ b)).drop a.length).take b.length = b := by
  simp [pad, append_assoc]

/-! ### Walking back -/

/-- `while(i && b[i] != mark) b[i--] = z`: the array, and where the loop stops. -/
def eraseBack [DecidableEq α] (z mark : α) : ℕ → List α → Option (List α × ℕ)
  | 0, b => some (b, 0)
  | i + 1, b =>
      match b[i + 1]? with
      | none => none
      | some x => if x = mark then some (b, i + 1) else (write b (i + 1) z).bind (eraseBack z mark i)

variable [DecidableEq α] {mark : α}

/-- One step back over an element that is not the mark. -/
theorem eraseBack_pad_pop (hl : l.length = n + 1) (hx : x ≠ mark) (hsize : n + 1 < size) :
    eraseBack z mark (n + 1) (pad z size (l ++ [x])) = eraseBack z mark n (pad z size l) := by
  have hread : (pad z size (l ++ [x]))[n + 1]? = some x := by
    rw [getElem?_pad_of_lt (by simp; omega), ← hl]
    simp
  have hpop : write (pad z size (l ++ [x])) (n + 1) z = some (pad z size l) := by
    rw [← hl]
    exact write_pad_pop (by omega)
  rw [eraseBack, hread]
  simp only [hx, ite_false, hpop, bind_some]

/-- One step back from behind the text. -/
theorem eraseBack_pad_end (hl : l.length = n + 1) (hz : z ≠ mark) (hsize : n + 1 < size) :
    eraseBack z mark (n + 1) (pad z size l) = eraseBack z mark n (pad z size l) := by
  rw [← hl] at hsize
  rw [eraseBack, ← hl, getElem?_pad_end hsize]
  simp only [hz, ite_false, write_pad_end hsize, bind_some]

theorem eraseBack_pad_last (p t : List α) (ht : mark ∉ t) (hp : p ≠ []) (hsize : p.length + t.length < size) :
    eraseBack z mark (p.length + t.length) (pad z size (p ++ mark :: t)) =
      some (pad z size (p ++ [mark]), p.length) := by
  induction t using List.reverseRecOn with
  | nil =>
    obtain ⟨n, hn⟩ := Nat.exists_eq_add_one.mpr (length_pos_iff.mpr hp)
    have hread : (pad z size (p ++ [mark]))[n + 1]? = some mark := by
      rw [getElem?_pad_of_lt (by simp; omega), ← hn]
      simp
    simp [hn, eraseBack, hread]
  | append_singleton t x ih =>
    simp only [mem_append, mem_singleton, not_or] at ht
    rw [length_append, length_singleton, ← Nat.add_assoc] at hsize ⊢
    rw [← cons_append, ← append_assoc, eraseBack_pad_pop (by simp; omega) (Ne.symm ht.2) hsize]
    exact ih ht.1 (by omega)

/-- **From behind the text, back to the last mark in it.** -/
theorem eraseBack_pad (p t : List α) (ht : mark ∉ t) (hp : p ≠ []) (hz : z ≠ mark)
    (hsize : p.length + t.length + 1 < size) :
    eraseBack z mark (p.length + t.length + 1) (pad z size (p ++ mark :: t)) =
      some (pad z size (p ++ [mark]), p.length) := by
  rw [eraseBack_pad_end (by simp; omega) hz hsize]
  exact eraseBack_pad_last p t ht hp (by omega)

/-- **From behind a text without a mark, back to its first element.** -/
theorem eraseBack_pad_start (x : α) (t : List α) (ht : mark ∉ t) (hz : z ≠ mark) (hsize : t.length + 1 < size) :
    eraseBack z mark (t.length + 1) (pad z size (x :: t)) = some (pad z size [x], 0) := by
  rw [eraseBack_pad_end rfl hz hsize]
  induction t using List.reverseRecOn with
  | nil => rfl
  | append_singleton t y ih =>
    simp only [mem_append, mem_singleton, not_or] at ht
    rw [length_append, length_singleton] at hsize ⊢
    rw [← cons_append, eraseBack_pad_pop rfl (Ne.symm ht.2) (by omega)]
    exact ih ht.1 (by omega)

end Btos.Lib.Buffer
