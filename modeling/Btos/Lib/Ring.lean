import Mathlib.Logic.Function.Basic
import Mathlib.Tactic.Common
import Mathlib.Data.Int.Notation

/-!
# A queue in a ring of cells

The newest item is in the cell before `top`, and the `count` items of the queue stand one before the other, round a
ring of `n` cells.

* `Queue.items` — **the queue in the ring**: one more item goes to its end (`items_push`), and the cell at `start` is
  its head (`items_pop`).
-/

namespace Btos.Lib.Ring

open Function

variable {α : Type*} {n : ℕ}

/-- The cell `k` places before `top`: a signed difference, corrected once. -/
def back (n top k : ℕ) : ℕ :=
  let start : ℤ := top - k
  (if start < 0 then start + n else start).toNat

def next (n top : ℕ) : ℕ := if top + 1 = n then 0 else top + 1

theorem back_next (hk : k < n) : back n (next n top) (k + 1) = back n top k := by
  simp only [back, next]
  split <;> split <;> split <;> omega

theorem back_ne (hpos : 0 < k) (hk : k < n) : back n top k ≠ top := by
  simp only [back]
  split <;> omega

def itemsOf (n top : ℕ) (cell : ℕ → α) : ℕ → List α
  | 0 => []
  | count + 1 => cell (back n top (count + 1)) :: itemsOf n top cell count

theorem itemsOf_push (cell : ℕ → α) (x : α) (hlt : count < n) :
    itemsOf n (next n top) (update cell top x) (count + 1) = itemsOf n top cell count ++ [x] := by
  induction count with
  | zero =>
    have hstart : back n top 0 = top := by
      simp only [back]
      split <;> omega
    show [update cell top x (back n (next n top) (0 + 1))] = [x]
    rw [back_next hlt, hstart, update_self]
  | succ count ih =>
    rw [itemsOf, back_next hlt, update_of_ne (back_ne (Nat.succ_pos _) hlt), ih (Nat.lt_of_succ_lt hlt)]
    rfl

structure Queue (n : ℕ) (α : Type*) where
  cell : ℕ → α
  count : ℕ
  top : ℕ
  count_le : count ≤ n
  top_lt : top < n

namespace Queue

/-- No items; the cells are as they are. -/
def empty (cell : ℕ → α) (h : 0 < n) : Queue n α := ⟨cell, 0, 0, Nat.zero_le n, h⟩

def push (r : Queue n α) (x : α) (h : r.count < n) : Queue n α where
  cell := update r.cell r.top x
  count := r.count + 1
  top := next n r.top
  count_le := h
  top_lt := by
    have := r.top_lt
    unfold next
    split <;> omega

def front (r : Queue n α) : α := r.cell (back n r.top r.count)

def pop (r : Queue n α) : Queue n α := { r with count := r.count - 1, count_le := Nat.le_trans (Nat.sub_le _ _) r.count_le }

def items (r : Queue n α) : List α := itemsOf n r.top r.cell r.count

@[simp] theorem length_items (r : Queue n α) : r.items.length = r.count := by
  unfold items
  induction r.count with
  | zero => rfl
  | succ count ih => rw [itemsOf, List.length_cons, ih]

@[simp] theorem items_empty (cell : ℕ → α) (h : 0 < n) : (empty cell h).items = [] := rfl

@[simp] theorem items_push (r : Queue n α) (x : α) (h : r.count < n) : (r.push x h).items = r.items ++ [x] :=
  itemsOf_push r.cell x h

theorem items_pop (r : Queue n α) (h : r.count ≠ 0) : r.items = r.front :: r.pop.items := by
  obtain ⟨k, hk⟩ := Nat.exists_eq_succ_of_ne_zero h
  simp only [items, front, pop, hk]
  rfl

end Queue

end Btos.Lib.Ring
