import Mathlib.Tactic.Common
import Mathlib.Data.List.Basic

/-!
# Wildcard patterns

A pattern is a list of symbols over an alphabet `α`: a **star** stands for any string, the empty one
included, **any** for exactly one character, and a **literal** for itself.

* `Matches p s` — the language of a pattern, one constructor for each kind of symbol;
* `matches_append_iff` — a concatenation of patterns matches a concatenation of strings;
* `minLength`, `Matches.minLength_le` — stars may be empty, every other symbol takes one character;
* `matches_star_star_iff`, `matches_star_any_iff` — a star takes another star in, and changes places with an
  `any`;
* `shortest z p` — the shortest string of the language, with `z` for each `any`.

Nothing here is about one particular matcher.
-/

namespace Btos.Lib.Glob

open List

variable {α : Type*}

inductive Sym (α : Type*) where
  | star
  | any
  | lit (c : α)
  deriving DecidableEq, Repr

inductive Matches : List (Sym α) → List α → Prop where
  | nil : Matches [] []
  | star {p : List (Sym α)} {s : List α} (t : List α) : Matches p s → Matches (.star :: p) (t ++ s)
  | any {p : List (Sym α)} {s : List α} (c : α) : Matches p s → Matches (.any :: p) (c :: s)
  | lit {p : List (Sym α)} {s : List α} (c : α) : Matches p s → Matches (.lit c :: p) (c :: s)

/-! ### One symbol -/

variable {p : List (Sym α)} {s : List α}

@[simp] theorem matches_nil_iff : Matches [] s ↔ s = [] := by
  constructor
  · intro h
    cases h
    rfl
  · intro h
    subst h
    exact .nil

theorem matches_star_iff : Matches (.star :: p) s ↔ ∃ t u, s = t ++ u ∧ Matches p u := by
  constructor
  · intro h
    cases h with
    | star t hu => exact ⟨t, _, rfl, hu⟩
  · rintro ⟨t, u, rfl, hu⟩
    exact .star t hu

@[simp] theorem not_matches_any_nil : ¬Matches (.any :: p) [] := by
  nofun

@[simp] theorem matches_any_cons_iff : Matches (.any :: p) (c :: s) ↔ Matches p s := by
  constructor
  · intro h
    cases h with
    | any _ hs => exact hs
  · exact .any c

@[simp] theorem not_matches_lit_nil : ¬Matches (.lit c :: p) [] := by
  nofun

@[simp] theorem matches_lit_cons_iff : Matches (.lit c :: p) (d :: s) ↔ d = c ∧ Matches p s := by
  constructor
  · intro h
    cases h with
    | lit _ hs => exact ⟨rfl, hs⟩
  · rintro ⟨rfl, hs⟩
    exact .lit d hs

/-! ### Stars -/

theorem Matches.star_append (t : List α) (h : Matches (.star :: p) s) : Matches (.star :: p) (t ++ s) := by
  obtain ⟨u, v, rfl, hv⟩ := matches_star_iff.1 h
  rw [← append_assoc]
  exact .star (t ++ u) hv

theorem matches_star_star_iff : Matches (.star :: .star :: p) s ↔ Matches (.star :: p) s := by
  constructor
  · intro h
    obtain ⟨t, u, rfl, hu⟩ := matches_star_iff.1 h
    exact hu.star_append t
  · intro h
    exact .star [] h

theorem matches_star_any_iff : Matches (.star :: .any :: p) (c :: s) ↔ Matches (.star :: p) s := by
  constructor
  · intro h
    obtain ⟨t, u, htu, hu⟩ := matches_star_iff.1 h
    cases t with
    | nil =>
      rw [nil_append] at htu
      rw [← htu, matches_any_cons_iff] at hu
      exact .star [] hu
    | cons d t =>
      cases u with
      | nil => exact absurd hu not_matches_any_nil
      | cons e u =>
        have hs : s = (t ++ [e]) ++ u := by simpa using (List.cons.inj htu).2
        rw [hs]
        exact .star _ (matches_any_cons_iff.1 hu)
  · intro h
    obtain ⟨t, u, rfl, hu⟩ := matches_star_iff.1 h
    -- the character moves through what the star stands for
    cases ht : (c :: t).getLast? with
    | none => simp at ht
    | some e =>
      have hct : c :: t = (c :: t).dropLast ++ [e] :=
        (dropLast_append_getLast? e ht).symm
      have hsplit : c :: (t ++ u) = (c :: t).dropLast ++ e :: u := by
        rw [← cons_append, hct]
        simp
      rw [hsplit]
      exact .star _ (.any e hu)

/-! ### Concatenation and length -/

theorem matches_append_iff : Matches (p ++ q) s ↔ ∃ t u, s = t ++ u ∧ Matches p t ∧ Matches q u := by
  constructor
  · intro h
    induction p generalizing s with
    | nil => exact ⟨[], s, rfl, .nil, h⟩
    | cons x p ih =>
      cases h with
      | star t h =>
        obtain ⟨a, b, rfl, ha, hb⟩ := ih h
        exact ⟨t ++ a, b, by simp, .star t ha, hb⟩
      | any c h =>
        obtain ⟨a, b, rfl, ha, hb⟩ := ih h
        exact ⟨c :: a, b, rfl, .any c ha, hb⟩
      | lit c h =>
        obtain ⟨a, b, rfl, ha, hb⟩ := ih h
        exact ⟨c :: a, b, rfl, .lit c ha, hb⟩
  · rintro ⟨t, u, rfl, ht, hu⟩
    induction ht with
    | nil => exact hu
    | star r _ ih =>
      rw [append_assoc]
      exact .star r ih
    | any c _ ih => exact .any c ih
    | lit c _ ih => exact .lit c ih

def minLength : List (Sym α) → ℕ
  | [] => 0
  | .star :: p => minLength p
  | _ :: p => minLength p + 1

theorem Matches.minLength_le (h : Matches p s) : minLength p ≤ s.length := by
  induction h with
  | nil => exact Nat.le_refl 0
  | star t _ ih =>
    rw [minLength, length_append]
    omega
  | any _ _ ih | lit _ _ ih => exact Nat.succ_le_succ ih

theorem length_of_matches_replicate : ∀ {s : List α}, Matches (List.replicate j .any) s → s.length = j := by
  induction j with
  | zero =>
    intro s h
    simpa using h
  | succ j ih =>
    intro s h
    cases h with
    | any _ h => simp [ih h]

/-- The string in which each star is empty and each `any` is `z`. -/
def shortest (z : α) : List (Sym α) → List α
  | [] => []
  | .star :: p => shortest z p
  | .any :: p => z :: shortest z p
  | .lit c :: p => c :: shortest z p

theorem length_shortest (z : α) (p : List (Sym α)) : (shortest z p).length = minLength p := by
  induction p with
  | nil => rfl
  | cons x p ih => cases x <;> simp [shortest, minLength, ih]

theorem mem_shortest (h : c ∈ shortest z p) : c = z ∨ .lit c ∈ p := by
  induction p with
  | nil => cases h
  | cons x p ih =>
    cases x with
    | star => exact (ih h).imp id (mem_cons_of_mem _)
    | any =>
      rcases mem_cons.1 h with rfl | h
      · exact .inl rfl
      · exact (ih h).imp id (mem_cons_of_mem _)
    | lit d =>
      rcases mem_cons.1 h with rfl | h
      · exact .inr mem_cons_self
      · exact (ih h).imp id (mem_cons_of_mem _)

end Btos.Lib.Glob
