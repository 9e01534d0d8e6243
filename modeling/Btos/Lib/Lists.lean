import Mathlib.Tactic.Common
import Mathlib.Algebra.Group.Nat.Defs
import Mathlib.Algebra.Order.BigOperators.Group.List
import Mathlib.Algebra.Order.Ring.Nat

/-!
# Erasing the first match of a list, looking keys up, sums

`List.eraseP p` takes out the first element that meets `p`: the C++ idiom of a `for` over a vector
that erases at the first hit and breaks.  What is said here is what such a scan leaves behind:

* nothing that meets `p` exactly if there was **at most one** match (`forall_not_eraseP_iff`).

`countP_and_eq_iff` says when a second test changes a count, and `forall_eq_of_sum_le` says that sums
which agree, over terms that are ordered, have the same terms.
-/

namespace Btos.Lib.Lists

open List Option

variable {α κ : Type*}

theorem filter_not_eraseP (p : α → Bool) (l : List α) :
    (l.eraseP p).filter (fun a => !p a) = l.filter fun a => !p a := by
  induction l with
  | nil => rfl
  | cons a l ih =>
    by_cases ha : p a = true
    · simp [ha]
    · simp [ha, ih]

theorem forall_not_eraseP_iff (p : α → Bool) (l : List α) :
    (∀ a ∈ l.eraseP p, p a = false) ↔ l.countP p ≤ 1 := by
  induction l with
  | nil => simp
  | cons a l ih =>
    by_cases ha : p a = true
    · rw [eraseP_cons_of_pos ha, countP_cons_of_pos ha]
      have hz : (∀ b ∈ l, p b = false) ↔ l.countP p = 0 := by
        rw [countP_eq_zero]
        simp only [Bool.not_eq_true]
      rw [hz]
      omega
    · rw [countP_cons_of_neg ha, ← ih]
      simp [ha]

/-- A scan for `p` takes out exactly the elements with `q` if they are its first match, and no others. -/
theorem eraseP_eq_filter_not_iff (p q : α → Bool) (l : List α) :
    l.eraseP p = l.filter (fun a => !q a) ↔ l.filter q = (l.find? p).toList := by
  induction l with
  | nil => simp
  | cons a l ih =>
    by_cases hp : p a = true
    · rw [eraseP_cons_of_pos hp, find?_cons_of_pos hp]
      by_cases hq : q a = true
      · rw [filter_cons_of_neg (by simpa using hq), filter_cons_of_pos hq, eq_comm]
        simp
      · -- all of `l` would be without `q`, and longer than itself
        refine iff_of_false (fun h => ?_) fun h => ?_
        · have hall : ∀ b ∈ l, (!q b) = true := by
            rw [h]
            exact fun b hb => (mem_filter.1 hb).2
          rw [filter_cons_of_pos (by simpa using hq), filter_eq_self.2 hall] at h
          exact absurd (congrArg List.length h) (by simp)
        · have ha : a ∈ (a :: l).filter q := h ▸ mem_singleton_self a
          exact hq (mem_filter.1 ha).2
    · rw [eraseP_cons_of_neg hp, find?_cons_of_neg hp]
      by_cases hq : q a = true
      · refine iff_of_false (fun h => ?_) fun h => ?_
        · have ha : a ∈ (a :: l).filter fun b => !q b := h ▸ mem_cons_self
          simpa [hq] using (mem_filter.1 ha).2
        · rw [filter_cons_of_pos hq] at h
          have ha : a ∈ (l.find? p).toList := h ▸ mem_cons_self
          exact hp (find?_some (mem_toList.1 ha))
      · simp [hq, ih]

theorem filter_not_mem_eraseP [DecidableEq α] {p : α → Bool} {l : List α} {a : α} (hl : l.Nodup)
    (hf : l.find? p = some a) : (l.filter fun b => b ∉ l.eraseP p) = [a] := by
  induction l with
  | nil => cases hf
  | cons c l ih =>
    obtain ⟨hc, hl⟩ := nodup_cons.1 hl
    by_cases hp : p c = true
    · rw [find?_cons_of_pos hp] at hf
      cases hf
      rw [eraseP_cons_of_pos hp, filter_cons_of_pos (by simp [hc])]
      have hrest : (l.filter fun b => b ∉ l) = [] := by simp
      rw [hrest]
    · rw [find?_cons_of_neg hp] at hf
      rw [eraseP_cons_of_neg hp, filter_cons_of_neg (by simp), ← ih hl hf]
      refine filter_congr ?_
      intro b hb
      have hbc : b ≠ c := fun h => hc (h ▸ hb)
      simp [hbc]

theorem countP_le_one_of_nodup {key : α → κ} {k : κ} {p : α → Bool} {l : List α}
    (hd : (l.map key).Nodup) (hp : ∀ a, p a = true → key a = k) : l.countP p ≤ 1 := by
  induction l with
  | nil => simp
  | cons a l ih =>
    rw [map_cons, nodup_cons] at hd
    by_cases ha : p a = true
    · have hz : l.countP p = 0 := by
        rw [countP_eq_zero]
        intro b hb hpb
        exact hd.1 (mem_map.2 ⟨b, hb, (hp b hpb).trans (hp a ha).symm⟩)
      exact Nat.le_of_eq (by rw [countP_cons_of_pos ha, hz])
    · rw [countP_cons_of_neg ha]
      exact ih hd.2

theorem find?_of_countP_le_one {p : α → Bool} {l : List α} {a : α} (hc : l.countP p ≤ 1)
    (ha : a ∈ l) (hp : p a = true) : l.find? p = some a := by
  induction l with
  | nil => exact absurd ha not_mem_nil
  | cons b l ih =>
    by_cases hb : p b = true
    · rw [countP_cons_of_pos hb] at hc
      have hz : l.countP p = 0 := by omega
      rcases mem_cons.1 ha with rfl | hal
      · exact find?_cons_of_pos hb
      · exact absurd hp (countP_eq_zero.1 hz a hal)
    · rw [countP_cons_of_neg hb] at hc
      rw [find?_cons_of_neg hb]
      rcases mem_cons.1 ha with rfl | hal
      · exact absurd hp hb
      · exact ih hc hal

theorem mem_of_lookup [BEq κ] [LawfulBEq κ] {l : List (κ × α)} {k : κ} {v : α}
    (h : l.lookup k = some v) : (k, v) ∈ l := by
  obtain ⟨l1, l2, rfl, -⟩ := lookup_eq_some_iff.1 h
  exact mem_append_right _ mem_cons_self

theorem lookup_filter_append_self [DecidableEq κ] (l : List (κ × α)) (k : κ) (v : α) :
    ((l.filter fun p => p.1 != k) ++ [(k, v)]).lookup k = some v := by
  have hnone : (l.filter fun p => p.1 != k).lookup k = none := by
    rw [lookup_eq_none_iff]
    intro p hp
    have hne := (mem_filter.1 hp).2
    rw [bne_iff_ne] at hne ⊢
    exact hne.symm
  rw [lookup_append, hnone, none_or, lookup_cons_self]

theorem lookup_filter_ne [DecidableEq κ] (h : b ≠ a) (l : List (κ × α)) :
    (l.filter fun p => p.1 != b).lookup a = l.lookup a := by
  induction l with
  | nil => rfl
  | cons p l ih =>
    rw [filter_cons]
    split
    · rw [lookup_cons, lookup_cons, ih]
    · rename_i hp
      have hpb : p.1 = b := by simpa using hp
      rw [ih, lookup_cons, beq_eq_false_iff_ne.2 (show a ≠ p.1 from hpb ▸ h.symm)]

theorem lookup_map_at [DecidableEq κ] (g : α → α) (a b : κ) (l : List (κ × α)) :
    (l.map fun p => if p.1 = b then (p.1, g p.2) else p).lookup a =
      (l.lookup a).map fun v => if a = b then g v else v := by
  induction l with
  | nil => rfl
  | cons p l ih =>
    have hkey : (if p.1 = b then (p.1, g p.2) else p).1 = p.1 := by
      split <;> rfl
    rw [map_cons, lookup_cons, lookup_cons, hkey, ih]
    split
    · rename_i ha
      rw [beq_iff_eq.1 ha]
      split <;> rfl
    · rfl

theorem countP_and_eq_iff {p q : α → Bool} {l : List α} :
    l.countP p = l.countP (fun a => p a && q a) ↔ ∀ a ∈ l, p a = true → q a = true := by
  have hsplit : l.countP (fun a => p a && q a) = (l.filter p).countP q := by
    rw [countP_filter]
    simp only [Bool.and_comm]
  rw [hsplit, countP_eq_length_filter, eq_comm]
  simp

theorem forall_eq_of_sum_le {f g : α → ℕ} {l : List α} (hle : ∀ a ∈ l, f a ≤ g a)
    (hsum : (l.map g).sum ≤ (l.map f).sum) : ∀ a ∈ l, f a = g a := by
  induction l with
  | nil => simp
  | cons b l ih =>
    have htail : (l.map f).sum ≤ (l.map g).sum :=
      sum_le_sum fun a ha => hle a (mem_cons_of_mem _ ha)
    rw [map_cons, map_cons, sum_cons, sum_cons] at hsum
    have hb := hle b mem_cons_self
    intro a ha
    rcases mem_cons.1 ha with rfl | hmem
    · omega
    · exact ih (fun a ha => hle a (mem_cons_of_mem _ ha)) (by omega) a hmem

theorem pairwise_or_of_mem {R : α → α → Prop} {l : List α} (h : l.Pairwise R) {a b : α} (ha : a ∈ l)
    (hb : b ∈ l) : a = b ∨ R a b ∨ R b a := by
  obtain ⟨i, hi, rfl⟩ := mem_iff_getElem.1 ha
  obtain ⟨j, hj, rfl⟩ := mem_iff_getElem.1 hb
  rcases Nat.lt_trichotomy i j with hlt | rfl | hgt
  · exact .inr (.inl (pairwise_iff_getElem.1 h i j hi hj hlt))
  · exact .inl rfl
  · exact .inr (.inr (pairwise_iff_getElem.1 h j i hj hi hgt))

end Btos.Lib.Lists
