import Mathlib.Data.List.Basic

/-!
# Readers of separated fields

A reader goes through a text with a few flags.  It keeps a character in the field, skips it, or ends the field there.

* `Reader.scan` — **a text in which no field ends**: what it adds to the field, and the flags behind it;
* `Reader.fields_sep_iff` — **the first of several fields** is a given one exactly if the text before the separator is
  read as that field, provided that the two have as many separators in them;
* `Reader.fields_last_iff` — **the last field**.
-/

namespace Btos.Lib.Fields

open List

/-- What is done with a character, and the flags behind it. -/
inductive Move (σ : Type*) where
  | keep (s : σ)
  | skip (s : σ)
  | split (s : σ)

/-- A reader: fields end only at the separator, which is never skipped. -/
structure Reader (α σ : Type*) [DecidableEq α] where
  move : σ → α → Move σ
  start : σ
  sep : α
  trim : List α → List α
  /-- What is made of the text behind the last separator. -/
  last : List α → List (List α)
  split_sep : ∀ {s c s'}, move s c = .split s' → c = sep ∧ s' = start
  skip_ne_sep : ∀ {s c s'}, move s c = .skip s' → c ≠ sep
  count_trim : ∀ l, (trim l).count sep = l.count sep
  last_cases : ∀ l, last l = [] ∨ last l = [trim l]

namespace Reader

variable {α σ : Type*} [DecidableEq α] (R : Reader α σ)

/-- **The fields of a text**, of which `cur` is the beginning of the first. -/
def fields : σ → List α → List α → List (List α)
  | _, cur, [] => R.last cur
  | s, cur, c :: cs =>
      match R.move s c with
      | .keep s' => fields s' (cur ++ [c]) cs
      | .skip s' => fields s' cur cs
      | .split s' => R.trim cur :: fields s' [] cs

def scan : σ → List α → Option (List α × σ)
  | s, [] => some ([], s)
  | s, c :: cs =>
      match R.move s c with
      | .keep s' => (scan s' cs).map fun r => (c :: r.1, r.2)
      | .skip s' => scan s' cs
      | .split _ => none

variable {R} {s s' t : σ} {c : α} {cs l w v rest : List α} {vs : List (List α)}

theorem scan_keep (h : R.move s c = .keep s') : R.scan s (c :: cs) = (R.scan s' cs).map fun r => (c :: r.1, r.2) := by
  rw [scan, h]

theorem scan_skip (h : R.move s c = .skip s') : R.scan s (c :: cs) = R.scan s' cs := by
  rw [scan, h]

theorem scan_of_keep (hmove : R.move s c = .keep s') (h : R.scan s (c :: cs) = some (w, t)) :
    ∃ w', w = c :: w' ∧ R.scan s' cs = some (w', t) := by
  rw [scan_keep hmove, Option.map_eq_some_iff] at h
  obtain ⟨⟨w', t'⟩, hr, hw⟩ := h
  cases hw
  exact ⟨w', rfl, hr⟩

theorem scan_cons_cases (h : R.scan s (c :: cs) = some (w, t)) :
    (∃ s' w', R.move s c = .keep s' ∧ w = c :: w' ∧ R.scan s' cs = some (w', t)) ∨
      ∃ s', R.move s c = .skip s' ∧ R.scan s' cs = some (w, t) := by
  cases hmove : R.move s c with
  | keep s' =>
    obtain ⟨w', rfl, hr⟩ := scan_of_keep hmove h
    exact .inl ⟨s', w', rfl, rfl, hr⟩
  | skip s' => exact .inr ⟨s', rfl, by rwa [scan_skip hmove] at h⟩
  | split s' => simp [scan, hmove] at h

section

variable (h : R.scan s l = some (w, t))
include h

/-- **What comes behind such a text** is read with the flags it leaves. -/
theorem fields_append (cur rest : List α) :
    R.fields s cur (l ++ rest) = R.fields t (cur ++ w) rest := by
  induction l generalizing s w cur with
  | nil =>
    cases h
    simp
  | cons c cs ih =>
    rw [cons_append, fields]
    rcases scan_cons_cases h with ⟨s', w', hmove, rfl, hr⟩ | ⟨s', hmove, hr⟩
    · simp [hmove, ih hr]
    · simp [hmove, ih hr]

theorem fields_of_scan : R.fields s [] l = R.last w := by
  rw [← append_nil l, fields_append h, nil_append, fields]

/-- **A separator** at which the field ends. -/
theorem fields_sep (hsep : R.move t R.sep = .split R.start) (rest : List α) :
    R.fields s [] (l ++ R.sep :: rest) = R.trim w :: R.fields R.start [] rest := by
  rw [fields_append h, fields, hsep, nil_append]

theorem count_scan : w.count R.sep = l.count R.sep := by
  induction l generalizing s w with
  | nil =>
    cases h
    rfl
  | cons c cs ih =>
    rcases scan_cons_cases h with ⟨s', w', hmove, rfl, hr⟩ | ⟨s', hmove, hr⟩
    · rw [count_cons, count_cons, ih hr]
    · rw [count_cons_of_ne (R.skip_ne_sep hmove), ih hr]

end

/-- **No field ends** in a text, or there is a first separator at which one does. -/
theorem scan_cases (R : Reader α σ) (s : σ) (l : List α) : (∃ w t, R.scan s l = some (w, t)) ∨
    ∃ ys zs w t, l = ys ++ R.sep :: zs ∧ R.scan s ys = some (w, t) ∧ R.move t R.sep = .split R.start := by
  induction l generalizing s with
  | nil => exact .inl ⟨[], s, rfl⟩
  | cons c cs ih =>
    cases hmove : R.move s c with
    | keep s' =>
      rcases ih s' with ⟨w, t, hr⟩ | ⟨ys, zs, w, t, rfl, hr, hsep⟩
      · exact .inl ⟨c :: w, t, by rw [scan_keep hmove, hr]; rfl⟩
      · exact .inr ⟨c :: ys, zs, c :: w, t, rfl, by rw [scan_keep hmove, hr]; rfl, hsep⟩
    | skip s' =>
      rcases ih s' with ⟨w, t, hr⟩ | ⟨ys, zs, w, t, rfl, hr, hsep⟩
      · exact .inl ⟨w, t, by rw [scan_skip hmove, hr]⟩
      · exact .inr ⟨c :: ys, zs, w, t, rfl, by rw [scan_skip hmove, hr], hsep⟩
    | split s' =>
      obtain ⟨rfl, rfl⟩ := R.split_sep hmove
      exact .inr ⟨[], cs, [], s, rfl, rfl, hmove⟩

/-- **The first field.**  It is all of the text, or ends at a separator. -/
theorem fields_eq_cons (h : R.fields s [] l = v :: vs) :
    (∃ w t, R.scan s l = some (w, t) ∧ v = R.trim w ∧ R.last w = [v] ∧ vs = []) ∨
      ∃ ys zs w t, l = ys ++ R.sep :: zs ∧ R.scan s ys = some (w, t) ∧ R.move t R.sep = .split R.start ∧
        v = R.trim w ∧ vs = R.fields R.start [] zs := by
  rcases R.scan_cases s l with ⟨w, t, hr⟩ | ⟨ys, zs, w, t, rfl, hr, hsep⟩
  · rw [fields_of_scan hr] at h
    rcases R.last_cases w with hlast | hlast
    · rw [hlast] at h
      cases h
    · rw [hlast] at h
      cases h
      exact .inl ⟨w, t, hr, rfl, hlast, rfl⟩
  · rw [fields_sep hr hsep] at h
    cases h
    exact .inr ⟨ys, zs, w, t, rfl, hr, hsep, rfl, rfl⟩

/-- **The first of several fields.** -/
theorem fields_sep_iff (hcount : v.count R.sep = l.count R.sep) :
    R.fields R.start [] (l ++ R.sep :: rest) = v :: vs ↔
      (∃ w t, R.scan R.start l = some (w, t) ∧ R.move t R.sep = .split R.start ∧ R.trim w = v) ∧
        R.fields R.start [] rest = vs := by
  constructor
  · intro h
    rcases fields_eq_cons h with ⟨w, t, hr, rfl, -, -⟩ | ⟨ys, zs, w, t, hl, hr, hsep, rfl, rfl⟩
    · rw [R.count_trim, count_scan hr, count_append, count_cons_self] at hcount
      omega
    · -- with as many separators before it, it is the same one
      rw [R.count_trim, count_scan hr] at hcount
      rcases append_eq_append_iff.mp hl with ⟨a, rfl, ha⟩ | ⟨a, rfl, ha⟩
      all_goals
        cases a with
        | nil =>
          simp only [append_nil, nil_append, cons.injEq, true_and] at hr ha
          exact ⟨⟨w, t, by simpa using hr, hsep, rfl⟩, by rw [ha]⟩
        | cons d a =>
          cases ha
          simp at hcount
  · rintro ⟨⟨w, t, hr, hsep, rfl⟩, rfl⟩
    exact fields_sep hr hsep rest

/-- **The last field.** -/
theorem fields_last_iff (hcount : v.count R.sep = l.count R.sep) :
    R.fields R.start [] l = [v] ↔ ∃ w t, R.scan R.start l = some (w, t) ∧ R.last w = [v] := by
  constructor
  · intro h
    rcases fields_eq_cons h with ⟨w, t, hr, -, hlast, -⟩ | ⟨ys, zs, w, t, rfl, hr, -, rfl, -⟩
    · exact ⟨w, t, hr, hlast⟩
    · rw [R.count_trim, count_scan hr, count_append, count_cons_self] at hcount
      omega
  · rintro ⟨w, t, hr, hlast⟩
    rw [fields_of_scan hr, hlast]

end Reader

end Btos.Lib.Fields
