import Btos.Kernel.Mm2.Mapping

/-!
# Allocating, and the loops of the operations

* `allocSearch_spec` — the search of `alloc` changes no entry, and **the pages it finds are empty**:
  the entry stored for each of them is 0;
* `mapNew_rule`, `free_rule` — **one rule for each kind of loop**: sound tables stay
  sound over the whole loop, and any property that each turn keeps holds at its end.

`alloc` needs nothing of the caches: it writes where the stored entry is 0, and a cached entry is
not 0.
-/

namespace Btos.Kernel.Mm2

open Lib.Word Lib.Loop

/-! ### The search -/

/-- The page has an empty entry in the current directory. -/
def Empty (s : State) (idx : ℕ) : Prop := idx ≠ s.tableFrame ∧ storedEntry s s.current idx = 0

theorem isAvailable_spec (ht : Tables s) (hidx : idx < 2 ^ 20)
    (h : (isAvailable s s.current idx).1 = true) : Empty s idx := by
  simp only [isAvailable, Bool.and_eq_true, Bool.not_eq_true', beq_iff_eq] at h
  obtain ⟨hp, hd⟩ := h
  have hF : idx ≠ s.tableFrame := by
    rintro rfl
    rw [ht.getTableEntry_window ht.live_current ht.windowed] at hp
    cases hp
  rw [ht.getTableEntry_eq ht.live_current ht.windowed hidx hF] at hp hd
  refine ⟨hF, ?_⟩
  rcases ht.entries _ idx ht.live_current hidx hF with h0 | hpres | hguard
  · exact h0
  · rw [hp] at hpres
    cases hpres
  · rw [hguard] at hd
    exact absurd hd (by decide)

theorem Alike.empty (h : Alike s x) (ht : Tables s) (hidx : idx < 2 ^ 20) : Empty x idx ↔ Empty s idx := by
  simp only [Empty, h.kept.tableFrame, h.kept.current]
  exact and_congr_right fun hne => by rw [h.stored _ _ ht.live_current hidx hne]

theorem Empty.ne_zero (h : Empty s idx) (ht : Tables s) : idx ≠ 0 := by
  rintro rfl
  exact ht.null h.2

/-- What the search has found when it comes to `pageno`. -/
structure Found (s : State) (pageno found firstpage : ℕ) : Prop where
  run : found ≠ 0 → firstpage ≠ 0 ∧ firstpage + found = pageno
  none : found = 0 → firstpage = 0
  empty : ∀ j, j < found → Empty s (firstpage + j)

/-- A search from the state `s` ends in `r`: nothing has changed, and a run that is found is empty. -/
structure Searched (s : State) (pages : ℕ) (r : ℕ × State) : Prop where
  tables : Tables r.2
  alike : Alike s r.2
  physical : r.2.physical = s.physical
  bound : r.1 ≠ 0 → r.1 + pages ≤ totalPages
  empty : r.1 ≠ 0 → ∀ j, j < pages → Empty s (r.1 + j)

/-- A search that has come to `x` without a change goes on from there. -/
theorem Searched.after (h : Searched x pages r)
    (ht : Tables s) (ha : Alike s x) (hph : x.physical = s.physical) : Searched s pages r where
  tables := h.tables
  alike := ha.trans h.alike
  physical := h.physical.trans hph
  bound := h.bound
  empty h0 j hj := by
    have hb := h.bound h0
    rw [totalPages] at hb
    exact (ha.empty ht (by omega)).1 (h.empty h0 j hj)

theorem Found.alike (h : Found s pageno found firstpage)
    (ht : Tables s) (ha : Alike s x) (hlt : pageno ≤ totalPages) : Found x pageno found firstpage := by
  refine ⟨h.run, h.none, fun j hj => ?_⟩
  have hr := h.run (by omega)
  rw [totalPages] at hlt
  exact (ha.empty ht (by omega)).2 (h.empty j hj)

/-- **The search of `alloc`.** -/
theorem allocSearch_spec (pages : ℕ) (mode : AllocMode) (fuel : ℕ) :
    ∀ (pageno found firstpage : ℕ) (s : State), Tables s → pageno + fuel ≤ totalPages →
      Found s pageno found firstpage →
      Searched s pages (allocSearch pages mode fuel pageno found firstpage s) := by
  induction fuel with
  | zero =>
    intro pageno found firstpage s ht _ _
    exact ⟨ht, Alike.refl s, rfl, fun h => absurd rfl h, fun h => absurd rfl h⟩
  | succ fuel ih =>
    intro pageno found firstpage s ht hlt hfound
    have hidx : pageno < 2 ^ 20 := by
      rw [totalPages] at hlt
      omega
    have hq := ht.getTableEntry_quiet ht.live_current hidx
    have ha := ht.getTableEntry_alike hidx
    have htx := ht.quiet hq
    have havail := isAvailable_spec ht hidx
    have hstate : (isAvailable s s.current pageno).2 = (getTableEntry s s.current pageno).2 := rfl
    simp only [allocSearch]
    rw [hstate]
    generalize (getTableEntry s s.current pageno).2 = x at hq ha htx
    split
    · rename_i hav
      have hempty := havail hav
      have hpos := hempty.ne_zero ht
      -- the run with this page
      have hnext : Found s (pageno + 1) (found + 1)
          (if firstpage = 0 then pageno else firstpage) := by
        by_cases h0 : found = 0
        · have hf := hfound.none h0
          subst h0 hf
          rw [if_pos rfl]
          refine ⟨fun _ => ⟨hpos, by omega⟩, fun h => by omega, fun j hj => ?_⟩
          rw [show pageno + j = pageno by omega]
          exact hempty
        · obtain ⟨hne, hsum⟩ := hfound.run h0
          rw [if_neg hne]
          refine ⟨fun _ => ⟨hne, by omega⟩, fun h => by omega, fun j hj => ?_⟩
          by_cases hj' : j < found
          · exact hfound.empty j hj'
          · rw [show firstpage + j = pageno by omega]
            exact hempty
      split
      · refine ⟨htx, ha, hq.physical, fun _ => ?_, fun _ j hj => hnext.empty j (by omega)⟩
        have hr := hnext.run (by omega)
        show (if firstpage = 0 then pageno else firstpage) + pages ≤ totalPages
        omega
      · exact (ih _ _ _ x htx (by omega) (hnext.alike ht ha (by omega))).after ht ha hq.physical
    · have hn := raiseHint_noted x pages pageno mode
      have ha' := ha.trans (hn.carried.alike hn.kept htx)
      have hph := hn.physical.trans hq.physical
      have htx' := hn.carried.tables htx
      generalize raiseHint x pages pageno mode = y at ha' hph htx'
      split
      · exact ⟨htx', ha', hph, fun h => absurd rfl h, fun h => absurd rfl h⟩
      · refine (ih _ _ _ y htx' (by omega) ⟨?_, fun _ => rfl, ?_⟩).after ht ha' hph
        · intro h
          exact absurd rfl h
        · intro j hj
          exact absurd hj (Nat.not_lt_zero j)

/-- **A call of `alloc`**: a search, and then a loop that maps the pages found. -/
theorem alloc_cases (ht : Tables s) (h : alloc s pages mode = some (a, s')) :
    ∃ first x, Searched s pages (first, x) ∧ ((first = 0 ∧ a = 0 ∧ s' = x) ∨ (first ≠ 0 ∧ a = first * 4096 ∧
        turns (fun i s => mapNewPageAt s (pageAddr (first * 4096) i) userFlags) pages x = some s')) := by
  obtain ⟨-, h⟩ := Option.ite_none_left_eq_some.1 h
  have hsearch : Searched s pages
      (allocSearch pages mode (totalPages - allocHint s mode) (allocHint s mode) 0 0 s) := by
    by_cases hle : allocHint s mode ≤ totalPages
    · refine allocSearch_spec pages mode _ _ _ _ s ht (by omega) ⟨?_, fun _ => rfl, ?_⟩
      · intro h0
        exact absurd rfl h0
      · intro j hj
        exact absurd hj (Nat.not_lt_zero j)
    · rw [show totalPages - allocHint s mode = 0 by omega]
      exact ⟨ht, Alike.refl s, rfl, fun h => absurd rfl h, fun h => absurd rfl h⟩
  simp only at h
  generalize allocSearch pages mode (totalPages - allocHint s mode) (allocHint s mode) 0 0 s = r
    at h hsearch
  refine ⟨r.1, r.2, hsearch, ?_⟩
  split at h
  · rename_i h0
    cases h
    exact .inl ⟨h0, rfl, rfl⟩
  · rename_i h0
    obtain ⟨y, hy, heq⟩ := Option.map_eq_some_iff.1 h
    cases heq
    exact .inr ⟨h0, rfl, hy⟩

/-! ### Loops -/

/-- **The rule for a loop that maps new pages**, the `i`-th at the address `a i`. -/
theorem mapNew_rule {s t : State} {a : ℕ → ℕ} {flags n : ℕ} (hflags : PresentFlags flags)
    (I : ℕ → State → Prop) (ht : Tables s) (h₀ : I 0 s) (ha : ∀ i < n, a i < 2 ^ 32)
    (hpre : ∀ i < n, ∀ u, Tables u → I i u →
      a i / 4096 ≠ u.tableFrame ∧ ∀ e, NotCachedElsewhere u (a i / 4096) e)
    (hstep : ∀ i < n, ∀ u v f, Tables u → I i u → Tables v → NewPage u v (a i / 4096) f flags → I (i + 1) v)
    (h : turns (fun i s => mapNewPageAt s (a i) flags) n s = some t) : Tables t ∧ I n t := by
  refine turns_invariant (fun i u => Tables u ∧ I i u) ⟨ht, h₀⟩ n ?_ h
  intro i hi u v _ hu hv
  obtain ⟨hF, hother⟩ := hpre i hi u hu.1 hu.2
  obtain ⟨htv, f, hnew⟩ := mapNewPageAt_spec hu.1 (ha i hi) hF hflags hother hv
  exact ⟨htv, hstep i hi u v f hu.1 hu.2 htv hnew⟩

/-- **The rule for `free_pages`.** -/
theorem free_rule (I : ℕ → State → Prop) (ht : Tables s) (h₀ : I 0 s)
    (hpre : ∀ i < n, ∀ u, turns (freeTurn addr) i s = some u → Tables u → I i u →
      FreeTurnOk u (pageAddr addr i / 4096))
    (hstep : ∀ i < n, ∀ u v, turns (freeTurn addr) i s = some u → Tables u → I i u → Tables v →
      Replaced u v (pageAddr addr i / 4096) 0 → I (i + 1) v)
    (h : freePages s addr n = some t) : Tables t ∧ I n t := by
  refine turns_invariant (fun i u => Tables u ∧ I i u) ⟨ht, h₀⟩ n ?_ h
  intro i hi u v hrun hu hv
  obtain ⟨htv, hr⟩ := freeTurn_spec hu.1 (hpre i hi u hrun hu.1 hu.2) hv
  exact ⟨htv, hstep i hi u v hrun hu.1 hu.2 htv hr⟩

/-- The page of the `i`-th turn of a loop over addresses; it wraps. -/
theorem pageAddr_page (addr i : ℕ) : pageAddr addr i / 4096 = (addr / 4096 + i) % 2 ^ 20 := by
  simp only [pageAddr, add32, mul32, pageSize]
  omega

/-- The `i`-th page of a run that does not reach the top of the address space. -/
theorem pageAddr_div (h : first + i < 2 ^ 20) : pageAddr (first * 4096) i / 4096 = first + i := by
  rw [pageAddr_page, Nat.mul_div_cancel _ (by decide), Nat.mod_eq_of_lt h]

/-- **The loop of `alloc`**: it needs nothing of the caches, as the pages are empty. -/
theorem alloc_rule {s t : State} {first pages : ℕ} (I : ℕ → State → Prop) (ht : Tables s)
    (h₀ : I 0 s) (hbound : first + pages ≤ totalPages) (hempty : ∀ j < pages, Empty s (first + j))
    (hstep : ∀ i < pages, ∀ u v f, Tables u → I i u → Tables v → Empty u (first + i) →
      NewPage u v (first + i) f userFlags → I (i + 1) v)
    (h : turns (fun i s => mapNewPageAt s (pageAddr (first * 4096) i) userFlags) pages s = some t) :
    Tables t ∧ I pages t := by
  rw [totalPages] at hbound
  have hpage : ∀ i < pages, pageAddr (first * 4096) i / 4096 = first + i := fun i hi =>
    pageAddr_div (by omega)
  -- the pages still to come are empty
  have key := mapNew_rule userFlags_present
    (fun i u => (∀ j, i ≤ j → j < pages → Empty u (first + j)) ∧ I i u) ht
    ⟨fun j _ hj => hempty j hj, h₀⟩ (fun i _ => pageAddr_lt _ i) ?_ ?_ h
  · exact ⟨key.1, key.2.2⟩
  · intro i hi u hu hI
    rw [hpage i hi]
    have he := hI.1 i (Nat.le_refl i) hi
    exact ⟨he.1, fun e => hu.notCachedElsewhere he.1 (.inl he.2)⟩
  · intro i hi u v f hu hI hv hnew
    rw [hpage i hi] at hnew
    refine ⟨fun j hij hj => ?_, hstep i hi u v f hu hI.2 hv (hI.1 i (Nat.le_refl i) hi) hnew⟩
    have he := hI.1 j (by omega) hj
    refine ⟨by rw [hnew.written.kept.tableFrame]; exact he.1, ?_⟩
    rw [hnew.written.kept.current, hnew.written.other _ _ hu.live_current (by omega) he.1]
    · exact he.2
    · rintro ⟨heq, -⟩
      omega

/-- **`alloc` keeps the tables sound.** -/
theorem alloc_spec (ht : Tables s) (h : alloc s pages mode = some (a, s')) : Tables s' ∧ Kept s s' := by
  obtain ⟨first, x, hs, hcase⟩ := alloc_cases ht h
  rcases hcase with ⟨-, -, rfl⟩ | ⟨h0, -, hloop⟩
  · exact ⟨hs.tables, hs.alike.kept⟩
  · refine alloc_rule (fun _ u => Kept s u) hs.tables hs.alike.kept (hs.bound h0) ?_ ?_ hloop
    · intro j hj
      have hb := hs.bound h0
      rw [totalPages] at hb
      exact (hs.alike.empty ht (by omega)).2 (hs.empty h0 j hj)
    · intro i _ u v f _ hk _ _ hnew
      exact hk.trans hnew.written.kept

end Btos.Kernel.Mm2
