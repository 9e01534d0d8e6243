import Mathlib.Logic.Function.Basic
import Mathlib.Algebra.Group.Nat.Defs
import Mathlib.Data.List.Perm.Basic

/-!
# Reference counts

A heap of cells, each with a count and a payload.  A holder of a reference may take another one
(`incr`) or give it back (`decr`); the cell is freed when its count reaches zero.  `none` is a use of a
cell that is not there, or a count below zero.

* `Counted refs h` — **the count of every cell is the number of references to it** among `refs`, and
  there is a cell exactly where there is a reference.
-/

namespace Btos.Lib.RefCount

open Function List

variable {α : Type*}

/-- A heap: the count and the payload of each cell. -/
abbrev Heap (α : Type*) := ℕ → Option (ℕ × α)

def payload (h : Heap α) (a : ℕ) : Option α := (h a).map Prod.snd

def incr (a : ℕ) (h : Heap α) : Option (Heap α) := (h a).map fun c => update h a (some (c.1 + 1, c.2))

/-- A reference is given back; the payload is returned if the cell is freed. -/
def decr (a : ℕ) (h : Heap α) : Option (Heap α × Option α) :=
  match h a with
  | none | some (0, _) => none
  | some (1, x) => some (update h a none, some x)
  | some (n + 2, x) => some (update h a (some (n + 1, x)), none)

def new (a : ℕ) (x : α) (h : Heap α) : Heap α := update h a (some (1, x))

/-- The cell that `n` references to it make. -/
def Cell (n : ℕ) (c : Option (ℕ × α)) : Prop := c.map Prod.fst = if n = 0 then none else some n

/-- Every count is the number of references. -/
def Counted (refs : List ℕ) (h : Heap α) : Prop := ∀ a, Cell (refs.count a) (h a)

theorem Cell.succ (h : Cell (n + 1) c) : ∃ x, c = some (n + 1, x) := by
  cases c with
  | none => cases h
  | some c =>
    have hc : some c.1 = some (n + 1) := h
    exact ⟨c.2, by rw [← Option.some.inj hc]⟩

theorem Counted.perm (hc : Counted refs h) (hp : refs.Perm refs') : Counted refs' h := by
  intro a
  rw [← hp.count_eq]
  exact hc a

theorem counted_nil : Counted [] (fun _ => (none : Option (ℕ × α))) := fun _ => rfl

section Operations

variable {refs : List ℕ} {h : Heap α} {a : ℕ}

theorem Counted.some (hc : Counted refs h) (ha : a ∈ refs) : ∃ x, h a = some (refs.count a, x) := by
  obtain ⟨n, hn⟩ : ∃ n, refs.count a = n + 1 :=
    ⟨refs.count a - 1, by have := count_pos_iff.2 ha; omega⟩
  have hcell := hc a
  rw [hn] at hcell ⊢
  exact hcell.succ

theorem Counted.update (hc : Counted refs h)
    (hcell : Cell (refs'.count a) c) (hrest : ∀ b, b ≠ a → refs'.count b = refs.count b) :
    Counted refs' (update h a c) := by
  intro b
  by_cases hb : b = a
  · subst hb
    rw [update_self]
    exact hcell
  · rw [update_of_ne hb, hrest b hb]
    exact hc b

theorem incr_spec (hc : Counted refs h) (ha : a ∈ refs) :
    ∃ h', incr a h = some h' ∧ Counted (a :: refs) h' ∧ ∀ b, payload h' b = payload h b := by
  obtain ⟨x, hx⟩ := hc.some ha
  refine ⟨_, by rw [incr, hx]; rfl, hc.update ?_ ?_, ?_⟩
  · rw [count_cons_self]
    rfl
  · intro b hb
    rw [count_cons_of_ne (Ne.symm hb)]
  · intro b
    by_cases hb : b = a
    · subst hb
      rw [payload, update_self, payload, hx]
      rfl
    · rw [payload, update_of_ne hb, payload]

theorem decr_spec (hc : Counted (a :: refs) h) : ∃ h' freed, decr a h = some (h', freed) ∧ Counted refs h' ∧
      (∀ b, b ≠ a → payload h' b = payload h b) ∧ (a ∈ refs → freed = none ∧ payload h' a = payload h a) ∧
      (a ∉ refs → freed = payload h a ∧ payload h' a = none) := by
  obtain ⟨x, hx⟩ := hc.some mem_cons_self
  rw [count_cons_self] at hx
  have hrest : ∀ b, b ≠ a → refs.count b = (a :: refs).count b := by
    intro b hb
    rw [count_cons_of_ne (Ne.symm hb)]
  have hother : ∀ (c : Option (ℕ × α)) b, b ≠ a → payload (update h a c) b = payload h b := by
    intro c b hb
    rw [payload, update_of_ne hb, payload]
  cases hn : refs.count a with
  | zero =>
    rw [hn] at hx
    have hnot : a ∉ refs := count_eq_zero.1 hn
    refine ⟨_, _, by rw [decr, hx], hc.update ?_ hrest, hother _, ?_, ?_⟩
    · rw [hn]
      rfl
    · intro hin
      exact absurd hin hnot
    · intro _
      rw [payload, hx, payload, update_self]
      exact ⟨rfl, rfl⟩
  | succ n =>
    rw [hn] at hx
    have hin : a ∈ refs := count_pos_iff.1 (by omega)
    refine ⟨_, _, by rw [decr, hx], hc.update ?_ hrest, hother _, ?_, ?_⟩
    · rw [hn]
      rfl
    · intro _
      rw [payload, update_self, payload, hx]
      exact ⟨rfl, rfl⟩
    · intro hnot
      exact absurd hin hnot

theorem new_spec (hc : Counted refs h) (ha : h a = none) (x : α) :
    a ∉ refs ∧ Counted (a :: refs) (new a x h) := by
  have hnot : a ∉ refs := by
    intro hin
    obtain ⟨y, hy⟩ := hc.some hin
    rw [ha] at hy
    cases hy
  refine ⟨hnot, hc.update ?_ ?_⟩
  · rw [count_cons_self, count_eq_zero.2 hnot]
    rfl
  · intro b hb
    rw [count_cons_of_ne (Ne.symm hb)]

theorem payload_new {x y : α} (hb : payload (new a x h) b = some y) :
    (b = a ∧ x = y) ∨ (b ≠ a ∧ payload h b = some y) := by
  by_cases hne : b = a
  · subst hne
    rw [payload, new, update_self] at hb
    exact .inl ⟨rfl, Option.some.inj hb⟩
  · rw [payload, new, update_of_ne hne] at hb
    exact .inr ⟨hne, hb⟩

end Operations

end Btos.Lib.RefCount
