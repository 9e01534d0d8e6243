import Btos.Kernel.Mm2.PhysicalTable

/-!
# The rotating search for a free page

`physical_alloc` goes down from `lastidx - 1`; below 0 the index wraps to `2 ^ 32 - 1` and is clamped to
the last entry, and the loop ends where it comes to `lastidx` again.  The stop is tested **before** the
clamp and the entry at `lastidx` is behind it, so that entry is looked at only if it is the last one, where
the clamp steps over the stop.

* `Pmm.alloc_right_iff` — so a page is returned whenever there is one, **unless the only one is at
  `lastidx`** and is not the last.
-/

namespace Btos.Kernel.Mm2

open Lib.Word Lib.Transition Option Pmm

variable {p : Pmm} {maxAddr i j idx : ℕ}

/-- One turn of the loop, which looks at the entry `i`. -/
theorem Pmm.allocLoop_turn (maxAddr fuel : ℕ) (hne : idx ≠ p.lastidx)
    (hat : (if idx > p.pages.length then p.pages.length - 1 else idx) = i) (hi : i < p.pages.length) :
    (p.allocLoop maxAddr (fuel + 1) idx).isSome ∨ ¬p.Suitable maxAddr i ∧
        p.allocLoop maxAddr (fuel + 1) idx = p.allocLoop maxAddr fuel (sub32 i 1) := by
  have hget : p.pages[i]? = some (p.pages.get ⟨i, hi⟩) := List.getElem?_eq_getElem hi
  simp only [allocLoop, if_neg hne, hat, hget]
  split
  · exact .inl rfl
  · rename_i hfree
    refine .inr ⟨?_, rfl⟩
    rintro ⟨pg, hpg, hs⟩
    rw [hget, Option.some.injEq] at hpg
    exact hfree (hpg ▸ hs)

section Search

variable (hs : p.Suitable maxAddr j) (hlen : p.pages.length < 2 ^ 32 - 1)
include hs hlen

/-- Going down from `idx`, a suitable entry is found before the stop. -/
theorem Pmm.allocLoop_down (fuel : ℕ) : ∀ idx, j ≤ idx → idx < p.pages.length →
    (p.lastidx < j ∨ idx < p.lastidx) → idx - j < fuel → (p.allocLoop maxAddr fuel idx).isSome := by
  induction fuel with
  | zero =>
    intro idx _ _ _ hfuel
    omega
  | succ fuel ih =>
    intro idx hj hidx hstop hfuel
    rcases allocLoop_turn maxAddr fuel (by omega) (if_neg (by omega)) hidx with hfound | ⟨hnot, hloop⟩
    · exact hfound
    · have hne : idx ≠ j := fun heq => hnot (heq ▸ hs)
      rw [hloop, sub32_of_le (by omega) (by omega)]
      exact ih _ (by omega) (by omega) (by omega) (by omega)

/-- From above the table the search goes on at its last entry, whatever `lastidx` is. -/
theorem Pmm.allocLoop_clamp (hlast : p.lastidx ≤ j)
    (hskip : j = p.lastidx → j + 1 = p.pages.length) (hfuel : p.pages.length - j ≤ fuel) :
    (p.allocLoop maxAddr fuel (2 ^ 32 - 1)).isSome := by
  have hj : j < p.pages.length := by
    obtain ⟨pg, hget, -⟩ := hs
    exact (List.getElem?_eq_some_iff.1 hget).1
  obtain ⟨fuel, rfl⟩ : ∃ k, fuel = k + 1 := ⟨fuel - 1, by omega⟩
  rcases allocLoop_turn maxAddr fuel (show 2 ^ 32 - 1 ≠ p.lastidx by omega) (if_pos (by omega))
    (Nat.sub_one_lt_of_lt hj) with hfound | ⟨hnot, hloop⟩
  · exact hfound
  · have hne : p.pages.length - 1 ≠ j := fun heq => hnot (heq ▸ hs)
    rw [hloop, sub32_of_le (by omega) (by omega)]
    exact allocLoop_down hs hlen fuel _ (by omega) (by omega) (by omega) (by omega)

theorem Pmm.allocLoop_wrap (fuel : ℕ) (hge : p.lastidx ≤ j) (hlast : p.lastidx < p.pages.length)
    (hskip : j = p.lastidx → j + 1 = p.pages.length) (hfuel : p.pages.length - j ≤ fuel) (idx : ℕ) :
    idx < p.lastidx → (p.allocLoop maxAddr (fuel + idx + 1) idx).isSome := by
  induction idx with
  | zero =>
    intro hidx
    rcases allocLoop_turn maxAddr (fuel + 0) (Nat.ne_of_lt hidx) (if_neg (by omega))
      (by omega) with hfound | ⟨-, hloop⟩
    · exact hfound
    · rw [hloop]
      exact allocLoop_clamp hs hlen hge hskip hfuel
  | succ idx ih =>
    intro hidx
    rcases allocLoop_turn maxAddr (fuel + idx + 1) (Nat.ne_of_lt hidx) (if_neg (by omega))
      (by omega) with hfound | ⟨-, hloop⟩
    · exact hfound
    · rw [← Nat.add_assoc, hloop, sub32_of_le (by omega) (by omega)]
      exact ih (by omega)

/-- **Every entry but the one at `lastidx` is reached**, and that one if it is the last. -/
theorem Pmm.alloc_isSome (hlast : p.lastidx < p.pages.length)
    (hskip : j = p.lastidx → j + 1 = p.pages.length) : (p.alloc maxAddr).isSome := by
  rcases Nat.lt_or_ge j p.lastidx with hlt | hge
  · rw [alloc, sub32_of_le (by omega) (by omega)]
    exact allocLoop_down hs hlen _ _ (by omega) (by omega) (by omega) (by omega)
  · rcases Nat.eq_zero_or_pos p.lastidx with h0 | hpos
    · rw [alloc, h0]
      exact allocLoop_clamp hs hlen hge hskip (by omega)
    · have hwrap := allocLoop_wrap hs hlen (p.pages.length + 1 - p.lastidx) hge hlast hskip
        (by omega) (p.lastidx - 1) (by omega)
      rwa [show p.pages.length + 1 - p.lastidx + (p.lastidx - 1) + 1 = p.pages.length + 1 by omega,
        ← sub32_of_le (by omega) hpos] at hwrap

end Search

/-- **The result of the search.**  Wherever some page is free below `max_addr` such a page is returned and
it alone is marked, exactly if it is not so that the page at `lastidx`, not the last of the table, is the
only one. -/
theorem Pmm.alloc_right_iff (p : Pmm) (maxAddr : ℕ) (hlast : p.lastidx < p.pages.length)
    (hlen : p.pages.length < 2 ^ 32 - 1) : ((∃ j, p.Suitable maxAddr j) →
        ∃ i, p.Suitable maxAddr i ∧ p.alloc maxAddr = some (i, p.taken i)) ↔
      (p.Suitable maxAddr p.lastidx → p.lastidx + 1 = p.pages.length ∨
        ∃ j, j ≠ p.lastidx ∧ p.Suitable maxAddr j) := by
  constructor
  · intro hright hs
    obtain ⟨i, hi, halloc⟩ := hright ⟨_, hs⟩
    obtain ⟨-, -, hskip⟩ := allocLoop_spec _ _ halloc
    by_cases heq : i = p.lastidx
    · exact .inl (heq ▸ hskip heq)
    · exact .inr ⟨i, heq, hi⟩
  · rintro hcond ⟨j, hj⟩
    obtain ⟨k, hk, hskip⟩ : ∃ k, p.Suitable maxAddr k ∧ (k = p.lastidx → k + 1 = p.pages.length) := by
      by_cases heq : j = p.lastidx
      · rcases hcond (heq ▸ hj) with hend | ⟨k, hne, hk⟩
        · exact ⟨j, hj, fun _ => heq ▸ hend⟩
        · exact ⟨k, hk, fun h => absurd h hne⟩
      · exact ⟨j, hj, fun h => absurd h heq⟩
    obtain ⟨⟨i, q⟩, halloc⟩ := isSome_iff_exists.1 (alloc_isSome hk hlen hlast hskip)
    obtain ⟨hi, rfl, -⟩ := allocLoop_spec _ _ halloc
    exact ⟨i, hi, halloc⟩

def twoPages : Pmm := ⟨[⟨0, .free⟩, ⟨4096, .free⟩], [], 0, 2, 0⟩

theorem twoPages_alloc_right :
    (∃ j, twoPages.Suitable 8192 j) ∧
      ∃ i, twoPages.Suitable 8192 i ∧ twoPages.alloc 8192 = some (i, twoPages.taken i) := by
  have h0 : twoPages.Suitable 8192 0 := ⟨_, rfl, rfl, by decide⟩
  have h1 : twoPages.Suitable 8192 1 := ⟨_, rfl, rfl, by decide⟩
  exact ⟨⟨0, h0⟩, (alloc_right_iff twoPages 8192 (by decide) (by decide)).2
    (fun _ => .inr ⟨1, by decide, h1⟩) ⟨0, h0⟩⟩

/-- **A panic with a free page.**  Both pages are handed out, the one of the last call is freed, and the next
call does not find it. -/
theorem alloc_panics_on_free_page :
    ((((twoPages.alloc 8192).bind fun r => r.2.alloc 8192).map fun r => r.2.freePage (.table r.1)).map
      fun p => (p.pages, p.alloc 8192)) = some ([⟨0, .free⟩, ⟨4096, .inUse⟩], none) := by
  decide

end Btos.Kernel.Mm2
