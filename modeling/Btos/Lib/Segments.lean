import Mathlib.Data.List.Basic
import Mathlib.Data.List.Infix

/-!
# Texts of segments

Segments with a separator in front of each, as the names of a path.  One such text can be the beginning of another without
its segments being the first segments of the other: the last of them can go on.

* `Extends` — **the last segment goes on**.
-/

namespace Btos.Lib.Segments

open List

variable {α : Type*} {sep : α}

/-- The segments, with a separator in front of each. -/
def slashed (sep : α) (segs : List (List α)) : List α := segs.flatMap fun s => sep :: s

/-- **The last segment goes on** in the other list. -/
def Extends (segs others : List (List α)) : Prop :=
  ∃ front s x rest, segs = front ++ [s] ∧ others = front ++ (s ++ x) :: rest ∧ x ≠ []

theorem slashed_cons (s : List α) (segs : List (List α)) : slashed sep (s :: segs) = sep :: s ++ slashed sep segs := rfl

theorem slashed_append (l m : List (List α)) : slashed sep (l ++ m) = slashed sep l ++ slashed sep m := flatMap_append

theorem slashed_cases (segs : List (List α)) : segs = [] ∨ ∃ t, slashed sep segs = sep :: t := by
  cases segs with
  | nil => exact .inl rfl
  | cons s segs => exact .inr ⟨s ++ slashed sep segs, rfl⟩

theorem append_prefix_iff (hs : sep ∉ s) (hr : sep ∉ r) (l m : List (List α)) :
    s ++ slashed sep l <+: r ++ slashed sep m ↔
      (s = r ∧ slashed sep l <+: slashed sep m) ∨ (l = [] ∧ ∃ x, r = s ++ x ∧ x ≠ []) := by
  induction s generalizing r with
  | nil =>
    cases r with
    | nil => simp
    | cons b r =>
      have hb : b ≠ sep := fun h => hr (h ▸ mem_cons_self)
      rcases @slashed_cases _ sep l with rfl | ⟨t, ht⟩
      · simp [slashed]
      · have hne : l ≠ [] := by
          rintro rfl
          cases ht
        simp only [nil_append, ht, cons_append, cons_prefix_cons, Ne.symm hb, false_and, hne,
          nil_eq, reduceCtorEq, or_self]
  | cons a s ih =>
    have ha : a ≠ sep := fun h => hs (h ▸ mem_cons_self)
    cases r with
    | nil =>
      rcases @slashed_cases _ sep m with rfl | ⟨t, ht⟩
      · simp [slashed]
      · simp [ht, ha]
    | cons b r =>
      have hih := ih (fun h => hs (mem_cons_of_mem _ h)) (fun h => hr (mem_cons_of_mem _ h))
      simp only [cons_append, cons_prefix_cons, List.cons.injEq, hih]
      constructor
      · rintro ⟨rfl, ⟨rfl, h⟩ | ⟨hl, x, hx, hne⟩⟩
        · exact .inl ⟨⟨rfl, rfl⟩, h⟩
        · exact .inr ⟨hl, x, ⟨rfl, hx⟩, hne⟩
      · rintro (⟨⟨rfl, rfl⟩, h⟩ | ⟨hl, x, ⟨rfl, hx⟩, hne⟩)
        · exact ⟨rfl, .inl ⟨rfl, h⟩⟩
        · exact ⟨rfl, .inr ⟨hl, x, hx, hne⟩⟩

theorem extends_cons_iff :
    Extends (s :: l) (r :: m) ↔ (s = r ∧ Extends l m) ∨ (l = [] ∧ ∃ x, r = s ++ x ∧ x ≠ []) := by
  constructor
  · rintro ⟨front, s', x, rest, hl, hm, hx⟩
    cases front with
    | nil =>
      cases hl
      cases hm
      exact .inr ⟨rfl, x, rfl, hx⟩
    | cons f front =>
      obtain ⟨hs, hl⟩ := List.cons.inj hl
      obtain ⟨hr, hm⟩ := List.cons.inj hm
      exact .inl ⟨hs.trans hr.symm, front, s', x, rest, hl, hm, hx⟩
  · rintro (⟨rfl, front, s', x, rest, rfl, rfl, hx⟩ | ⟨rfl, x, rfl, hx⟩)
    · exact ⟨s :: front, s', x, rest, rfl, rfl, hx⟩
    · exact ⟨[], s, x, m, rfl, rfl, hx⟩

theorem not_extends_nil (segs : List (List α)) : ¬ Extends segs [] := by
  rintro ⟨front, s, x, rest, -, h, -⟩
  exact absurd h (by simp)

/-- **The beginning of a text.** -/
theorem slashed_prefix_iff (hsegs : ∀ s ∈ segs, sep ∉ s) (hothers : ∀ s ∈ others, sep ∉ s) :
    slashed sep segs <+: slashed sep others ↔ segs <+: others ∨ Extends segs others := by
  induction segs generalizing others with
  | nil => simp [slashed]
  | cons s l ih =>
    cases others with
    | nil => simp [slashed, not_extends_nil]
    | cons r m =>
      have hs := hsegs s mem_cons_self
      have hr := hothers r mem_cons_self
      have hih : slashed sep l <+: slashed sep m ↔ l <+: m ∨ Extends l m :=
        ih (fun s h => hsegs s (mem_cons_of_mem _ h)) (fun s h => hothers s (mem_cons_of_mem _ h))
      rw [slashed_cons, slashed_cons, cons_append, cons_append, cons_prefix_cons,
        append_prefix_iff hs hr, cons_prefix_cons, extends_cons_iff]
      tauto

/-- **Inside**: a separator follows, or nothing. -/
theorem slashed_contained (h : segs <+: others) :
    slashed sep others = slashed sep segs ∨ slashed sep segs ++ [sep] <+: slashed sep others := by
  obtain ⟨more, rfl⟩ := h
  rw [slashed_append]
  rcases @slashed_cases _ sep more with rfl | ⟨t, ht⟩
  · exact .inl (by rw [slashed, slashed, flatMap_nil, append_nil])
  · exact .inr ⟨t, by rw [ht, append_assoc]; rfl⟩

/-- **Beside**: another element follows. -/
theorem Extends.not_contained (h : Extends segs others) (hothers : ∀ s ∈ others, sep ∉ s) :
    ¬ (slashed sep others = slashed sep segs ∨ slashed sep segs ++ [sep] <+: slashed sep others) := by
  obtain ⟨front, s, x, rest, rfl, rfl, hx⟩ := h
  obtain ⟨a, x, rfl⟩ := exists_cons_of_ne_nil hx
  have ha : a ≠ sep := by
    rintro rfl
    exact hothers (s ++ a :: x) (by simp) (by simp)
  have hothersText : slashed sep (front ++ (s ++ a :: x) :: rest) =
      slashed sep (front ++ [s]) ++ a :: (x ++ slashed sep rest) := by
    simp [slashed]
  rw [hothersText]
  rintro (h | h)
  · exact absurd (append_right_eq_self.mp h) (cons_ne_nil _ _)
  · rw [prefix_append_right_inj, cons_prefix_cons] at h
    exact ha h.1.symm

end Btos.Lib.Segments
