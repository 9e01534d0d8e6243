import Btos.Kernel.Mm2.Faults

/-!
# The steps of the pointer check

`is_safe_ptr` goes through a range in steps of what `resolve_addr` returns.  For an address in the
middle of a page that is the offset of the address *from the start* of its page, not what is left of
the page, so a step can jump over the end of the page; the page it lands in is looked at in the next
turn, unless the range ends before.

* `exists_visits_page`, `Visits.before_last` — **if they do, they come to every page of the range**, and
  if they do not, they stay below the last one.
-/

namespace Btos.Kernel.Mm2

open Lib.Word Option

/-! ### The steps -/

/-- The steps from offset `o` in a page, with `n` bytes to go, come to the page of the last byte.  Each
step doubles the offset, so after 12 of them it is 0, and from there on every page is looked at. -/
def walkCovers : ℕ → ℕ → ℕ → Bool
  | 0, _, _ => true
  | k + 1, o, n =>
      if o = 0 then true
      else if n ≤ o then decide (o + n ≤ 4096)
      else walkCovers k (2 * o % 4096) (n - o)

theorem walkCovers_empty (k : ℕ) (ho : o < 4096) : walkCovers k o 0 = true := by
  cases k with
  | zero => rfl
  | succ k =>
    unfold walkCovers
    split
    · rfl
    · exact decide_eq_true (Nat.le_of_lt ho)

/-- The offset after `k` more steps is 0. -/
def AlignsIn (k o : ℕ) : Prop := 2 ^ k * o % 4096 = 0

theorem alignsIn_twelve (o : ℕ) : AlignsIn 12 o := Nat.mul_mod_right 4096 o

theorem AlignsIn.zero (h : AlignsIn 0 o) (ho : o < 4096) : o = 0 := by
  unfold AlignsIn at h
  omega

theorem AlignsIn.step (h : AlignsIn (k + 1) o) : AlignsIn k (2 * o % 4096) := by
  unfold AlignsIn at *
  rw [Nat.mul_mod, Nat.mod_mod, ← Nat.mul_mod, ← Nat.mul_assoc]
  exact h

theorem offset_step (a : ℕ) : (a + stride a) % 4096 = 2 * (a % 4096) % 4096 := by
  unfold stride
  split <;> omega

/-- What the step from `a` covers of a range of `n` bytes that goes on for more than the step. -/
theorem page_between (h : j < stride a) :
    (a + j) / 4096 = a / 4096 ∨ (a + j) / 4096 = (a + stride a) / 4096 := by
  unfold stride at *
  split at h <;> rename_i h0
  · omega
  · rw [if_neg h0]
    omega

theorem page_last (hal : AlignsIn k (a % 4096)) (hc : walkCovers k (a % 4096) n = true)
    (hn : n ≤ stride a) (hj : j < n) : (a + j) / 4096 = a / 4096 := by
  by_cases h0 : a % 4096 = 0
  · unfold stride at hn
    rw [if_pos h0] at hn
    omega
  · unfold stride at hn
    rw [if_neg h0] at hn
    cases k with
    | zero => exact absurd (hal.zero (Nat.mod_lt _ (by decide))) h0
    | succ k =>
      simp only [walkCovers, if_neg h0, if_pos hn, decide_eq_true_eq] at hc
      omega

theorem walkCovers_step (hal : AlignsIn k (a % 4096))
    (hc : walkCovers k (a % 4096) n = true) (hn : stride a < n) : ∃ k', AlignsIn k' ((a + stride a) % 4096) ∧
      walkCovers k' ((a + stride a) % 4096) (n - stride a) = true := by
  rw [offset_step]
  by_cases h0 : a % 4096 = 0
  · rw [h0]
    exact ⟨0, by rfl, rfl⟩
  · cases k with
    | zero => exact absurd (hal.zero (Nat.mod_lt _ (by decide))) h0
    | succ k =>
      have hs : stride a = a % 4096 := if_neg h0
      rw [hs] at hn ⊢
      refine ⟨k, hal.step, ?_⟩
      simpa only [walkCovers, if_neg h0, if_neg (Nat.not_le.2 hn)] using hc

/-! ### The indices the loop comes to -/

section

variable {ptr size : ℕ}

/-- From index `i` the steps come to index `j`. -/
inductive Visits (ptr size : ℕ) : ℕ → ℕ → Prop where
  | here (i : ℕ) : Visits ptr size i i
  | next {i j : ℕ} : i < size → Visits ptr size (i + stride (ptr + i)) j → Visits ptr size i j

theorem Visits.le (h : Visits ptr size i j) : i ≤ j := by
  induction h with
  | here i => exact Nat.le_refl i
  | next _ _ ih => omega

/-- **Steps that come to the last page come to every page.** -/
theorem exists_visits_page (n : ℕ) : ∀ {i k : ℕ}, size - i ≤ n → AlignsIn k ((ptr + i) % 4096) →
    walkCovers k ((ptr + i) % 4096) (size - i) = true → ∀ b, i ≤ b → b < size →
    ∃ j, Visits ptr size i j ∧ j < size ∧ (ptr + b) / 4096 = (ptr + j) / 4096 := by
  induction n with
  | zero =>
    intro i k hn _ _ b hb hbs
    omega
  | succ n ih =>
    intro i k hn hal hc b hb hbs
    have hpos := stride_pos (ptr + i)
    by_cases hend : size ≤ i + stride (ptr + i)
    · have hpage := page_last (j := b - i) hal hc (by omega) (by omega)
      rw [show ptr + i + (b - i) = ptr + b by omega] at hpage
      exact ⟨i, .here i, by omega, hpage⟩
    · by_cases hb' : i + stride (ptr + i) ≤ b
      · obtain ⟨k', hal', hc'⟩ := walkCovers_step hal hc (by omega)
        rw [Nat.add_assoc] at hal' hc'
        rw [show size - i - stride (ptr + i) = size - (i + stride (ptr + i)) by omega] at hc'
        obtain ⟨j, hj, hjs, hpage⟩ := ih (by omega) hal' hc' b hb' hbs
        exact ⟨j, .next (by omega) hj, hjs, hpage⟩
      · -- between two steps: in the page of one of them
        have hpage := page_between (a := ptr + i) (j := b - i) (by omega)
        rw [show ptr + i + (b - i) = ptr + b by omega, Nat.add_assoc ptr i] at hpage
        rcases hpage with hp | hp
        · exact ⟨i, .here i, by omega, hp⟩
        · exact ⟨i + stride (ptr + i), .next (by omega) (.here _), by omega, hp⟩

theorem exists_visits_last (n : ℕ) : ∀ {i : ℕ}, size - i ≤ n → i < size →
    ∃ j, Visits ptr size i j ∧ j < size ∧ size ≤ j + stride (ptr + j) := by
  induction n with
  | zero =>
    intro i hn hi
    omega
  | succ n ih =>
    intro i hn hi
    have hpos := stride_pos (ptr + i)
    by_cases hend : size ≤ i + stride (ptr + i)
    · exact ⟨i, .here i, hi, hend⟩
    · obtain ⟨j, hj, hjs, hlast⟩ := ih (i := i + stride (ptr + i)) (by omega) (by omega)
      exact ⟨j, .next hi hj, hjs, hlast⟩

/-- **Steps that do not come to the last page stay below it.** -/
theorem Visits.before_last (k : ℕ) : ∀ {i j : ℕ}, AlignsIn k ((ptr + i) % 4096) →
    walkCovers k ((ptr + i) % 4096) (size - i) = false → i < size → Visits ptr size i j → j < size →
    (ptr + j) / 4096 < (ptr + size - 1) / 4096 := by
  induction k with
  | zero => intros; contradiction
  | succ k ih =>
    intro i j hal hc hi hvis hj
    by_cases h0 : (ptr + i) % 4096 = 0
    · rw [h0] at hc
      cases hc
    · have hs : stride (ptr + i) = (ptr + i) % 4096 := if_neg h0
      simp only [walkCovers, if_neg h0] at hc
      by_cases hn : size - i ≤ (ptr + i) % 4096
      · rw [if_pos hn, decide_eq_false_iff_not] at hc
        cases hvis with
        | here => omega
        | next _ hrest =>
          have := hrest.le
          omega
      · rw [if_neg hn, ← offset_step, Nat.add_assoc] at hc
        have hal' := hal.step
        rw [← offset_step, Nat.add_assoc] at hal'
        rw [← hs, show size - i - stride (ptr + i) = size - (i + stride (ptr + i)) by omega] at hc
        have hlt : i + stride (ptr + i) < size := by omega
        cases hvis with
        | here =>
          have := ih hal' hc hlt (.here _) hlt
          omega
        | next _ hrest => exact ih hal' hc hlt hrest hj

end

/-! ### The loop -/

section

variable {ptr size : ℕ}

/-- **A loop that says yes has found every address it came to mapped**, and has not gone past the top
of the address space, where the null page is. -/
theorem safeLoop_sound (hptr : kernelBoundary ≤ ptr) (fuel : ℕ) :
    ∀ (i : ℕ) (s s' : State), Tables s → SpacesOk s → ¬MappedAt s s.current 0 →
      (∀ r ∈ (s.dirs s.current).regions, 4096 ≤ r.addr) → ptr + i < 2 ^ 32 + 4096 →
      safeLoop ptr size fuel i s = some (true, s') → Extends s s' ∧ ∀ j, Visits ptr size i j → j < size →
        ptr + j < 2 ^ 32 ∧ MappedAt s' s.current ((ptr + j) / 4096) := by
  rw [kernelBoundary] at hptr
  induction fuel with
  | zero => intros; contradiction
  | succ fuel ih =>
    intro i s s' ht hs h0 hr hi h
    simp only [safeLoop] at h
    split at h
    · by_cases htop : ptr + i < 2 ^ 32
      · obtain ⟨⟨r, x⟩, hx, h⟩ := bind_eq_some_iff.1 h
        rw [add32_of_lt htop] at hx
        have huser : kernelPages ≤ (ptr + i) / 4096 := by
          rw [kernelPages]
          omega
        obtain ⟨hext, hres⟩ := resolveAddr_spec ht hs htop huser hx
        split at h
        · cases h
        · rename_i hr0
          obtain ⟨rfl, hm⟩ := hres hr0
          have hle := stride_le (ptr + i)
          rw [add32_of_lt (by omega)] at h
          obtain ⟨hext', hall⟩ := ih _ x s' hext.tables hext.spaces
            (by rw [MappedAt, hext.current, hext.null]; exact h0)
            (by rw [hext.current, hext.regions]; exact hr) (by omega) h
          rw [hext.current] at hall
          refine ⟨hext.trans hext', fun j hj hjs => ?_⟩
          cases hj with
          | here =>
            refine ⟨htop, ?_⟩
            have hm' := hext'.mapped _ (by omega)
              (hext.tables.ne_frame huser)
              (by rw [hext.current]; exact hm)
            rwa [hext.current] at hm'
          | next _ hrest => exact hall j hrest hjs
      · -- past the top comes the null page
        have hwrap : add32 ptr i < 4096 := by
          rw [add32_of_ge (by omega) (by omega)]
          omega
        obtain ⟨x, hx⟩ := resolveAddr_null ht hwrap h0 hr
        rw [hx] at h
        cases h
    · cases h
      exact ⟨(Alike.refl s).extends ht ht hs, fun j hj hjs => absurd hj.le (by omega)⟩

/-- **A loop that comes to mapped pages only says yes**, and changes no entry. -/
theorem safeLoop_complete (hptr : kernelBoundary ≤ ptr) (fuel : ℕ) :
    ∀ (i : ℕ) (s : State), Tables s → size - i < fuel → (∀ j, Visits ptr size i j → j < size →
        ptr + j < 2 ^ 32 ∧ MappedAt s s.current ((ptr + j) / 4096)) →
      ∃ s', safeLoop ptr size fuel i s = some (true, s') ∧ Tables s' ∧ Alike s s' := by
  rw [kernelBoundary] at hptr
  induction fuel with
  | zero =>
    intro i s _ hf
    exact absurd hf (Nat.not_lt_zero _)
  | succ fuel ih =>
    intro i s ht hf hvis
    have hF : ∀ j, (ptr + j) / 4096 ≠ s.tableFrame := by
      intro j
      have := ht.frame_lt
      rw [kernelPages] at this
      omega
    by_cases hlt : i < size
    · obtain ⟨htop, hm⟩ := hvis i (.here i) hlt
      have hle := stride_le (ptr + i)
      have hpos := stride_pos (ptr + i)
      obtain ⟨x, hx, htx, ha⟩ := resolveAddr_mapped ht htop (hF i) hm
      obtain ⟨s', hs', hts', ha'⟩ := ih (i + stride (ptr + i)) x htx (by omega) (by
        intro j hj hjlt
        obtain ⟨hjtop, hjm⟩ := hvis j (.next hlt hj) hjlt
        refine ⟨hjtop, ?_⟩
        rw [MappedAt, ha.kept.current, ha.stored _ _ ht.live_current (by omega) (hF j)]
        exact hjm)
      refine ⟨s', ?_, hts', ha.trans ha'⟩
      simp only [safeLoop, if_pos hlt, add32_of_lt htop, hx, bind_some,
        if_neg (Nat.ne_of_gt hpos), add32_of_lt (show i + stride (ptr + i) < 2 ^ 32 by omega)]
      exact hs'
    · refine ⟨s, ?_, ht, Alike.refl s⟩
      simp only [safeLoop, if_neg hlt]

end

end Btos.Kernel.Mm2
