import Btos.Kernel.Mm2.UserSpace

/-!
# What is freed stays freed

A loop of `free_pages` that wraps frees pages of the kernel half, possibly all of them, the page of
the window and those of the page tables included.  Nothing can be said about the tables then, but one
thing about a single entry: the words that lead to it stay, and **what is stored there afterwards is
one of the values that were written**.

* `Anchored` — the words that lead to the entry of page `p`, and to the window, are there;
* `Bears` — a step keeps these words, and the entry of `p` keeps a property `P` that 0 has;
* `setTableEntry_hits` — the entry of `p` itself is written;
* `freePages_bears`, `guardPages_bears` — the loops.
-/

namespace Btos.Kernel.Mm2

open Lib.Word Lib.Loop Option

/-- The words that lead to the entry of page `p` and to the window's; these are two entries. -/
structure Anchored (s : State) (p : ℕ) : Prop where
  windowPresent : present (s.tableWord s.current (s.tableFrame / 1024)) = true
  windowAddress : s.windowTable s.current ≠ 0
  address : addressOf (s.tableWord s.current (p / 1024)) ≠ 0
  apart : ¬(addressOf (s.tableWord s.current (p / 1024)) = s.windowTable s.current ∧
    p % 1024 = s.tableFrame % 1024)

/-- The anchoring words stay, and the entry of `p` keeps the property `P`. -/
structure Bears (P : ℕ → Prop) (p : ℕ) (s s' : State) : Prop where
  current : s'.current = s.current
  tableFrame : s'.tableFrame = s.tableFrame
  schedulerReady : s'.schedulerReady = s.schedulerReady
  windowWord : s'.tableWord s.current (s.tableFrame / 1024) = s.tableWord s.current (s.tableFrame / 1024)
  word : s'.tableWord s.current (p / 1024) = s.tableWord s.current (p / 1024)
  keeps : P (storedEntry s s.current p) → P (storedEntry s' s.current p)

section

variable {P : ℕ → Prop} {p : ℕ} {s s' s'' : State}

theorem Bears.refl (s : State) : Bears P p s s := ⟨rfl, rfl, rfl, rfl, rfl, id⟩

theorem Bears.trans (h : Bears P p s s') (h' : Bears P p s' s'') : Bears P p s s'' where
  current := h'.current.trans h.current
  tableFrame := h'.tableFrame.trans h.tableFrame
  schedulerReady := h'.schedulerReady.trans h.schedulerReady
  windowWord := by
    have := h'.windowWord
    rw [h.current, h.tableFrame] at this
    exact this.trans h.windowWord
  word := by
    have := h'.word
    rw [h.current] at this
    exact this.trans h.word
  keeps hp := by
    have := h'.keeps
    rw [h.current] at this
    exact this (h.keeps hp)

theorem Bears.anchored (h : Bears P p s s') (ha : Anchored s p) : Anchored s' p := by
  have hwt : s'.windowTable s.current = s.windowTable s.current := by
    rw [State.windowTable, State.windowTable, h.tableFrame, h.windowWord]
  refine ⟨?_, ?_, ?_, ?_⟩
  · rw [h.current, h.tableFrame, h.windowWord]
    exact ha.windowPresent
  · rw [h.current, hwt]
    exact ha.windowAddress
  · rw [h.current, h.word]
    exact ha.address
  · rw [h.current, h.word, hwt, h.tableFrame]
    exact ha.apart

theorem Bears.aside (hcur : s'.current = s.current) (hF : s'.tableFrame = s.tableFrame)
    (hready : s'.schedulerReady = s.schedulerReady) (hframes : s'.frames = s.frames)
    (hword : ∀ t, s'.tableWord s.current t = s.tableWord s.current t) : Bears P p s s' := by
  refine ⟨hcur, hF, hready, hword _, hword _, ?_⟩
  rw [storedEntry, storedEntry, hword, hframes]
  exact id

/-! ### Steps -/

theorem setDir_bears (h : x.directory = (s.dirs s.current).directory) : Bears P p s (s.setDir s.current x) :=
  .aside rfl rfl rfl rfl fun t => congrFun (setDir_same PageDirectory.directory h s.current) t

theorem setCache_bears (cache : List CacheEntry) : Bears P p s (s.setCache s.current cache) := setDir_bears rfl

theorem physical_bears (ph : Physical) : Bears P p s { s with physical := ph } :=
  .aside rfl rfl rfl rfl fun _ => rfl

theorem writeWord_bears (hv : P v) : Bears P p s (s.writeWord f j v) := by
  refine ⟨rfl, rfl, rfl, rfl, rfl, ?_⟩
  have hwords : (s.writeWord f j v).tableWord = s.tableWord := rfl
  have hframes : ∀ g i, (s.writeWord f j v).frames g i =
      if g = f ∧ i = j then v else s.frames g i := fun _ _ => rfl
  simp only [storedEntry, hwords, hframes]
  intro hold
  split
  · rename_i h0
    rwa [if_pos h0] at hold
  · rename_i h0
    rw [if_neg h0] at hold
    split
    · exact hv
    · exact hold

theorem zeroFrame_bears (h0 : P 0) (f : ℕ) : Bears P p s (s.zeroFrame f) := by
  refine ⟨rfl, rfl, rfl, rfl, rfl, ?_⟩
  have hwords : (s.zeroFrame f).tableWord = s.tableWord := rfl
  have hframes : ∀ g i, (s.zeroFrame f).frames g i = if g = f then 0 else s.frames g i :=
    fun _ _ => rfl
  simp only [storedEntry, hwords, hframes]
  intro hold
  split
  · exact h0
  · rename_i hne
    rw [if_neg hne] at hold
    split
    · exact h0
    · exact hold

theorem mapTable_bears (ha : Anchored s p) (ta : ℕ) : Bears P p s (mapTable s s.current ta).2 := by
  have hshown := mapTable_shown (s := s) rfl ta
  have hword := hshown.tableWord s.current
  refine ⟨by rw [hshown.rest], by rw [hshown.rest], by rw [hshown.rest], hword _, hword _, ?_⟩
  rw [storedEntry, storedEntry, hword, hshown.frames _ _ ha.apart]
  exact id

theorem installTable_bears (page : ℕ) (ph : Physical) (hp : p / 1024 ≠ t)
    (hw : s.tableFrame / 1024 ≠ t) : Bears P p s (installTable s s.current t page ph) := by
  have hword : ∀ u, u ≠ t → (installTable s s.current t page ph).tableWord s.current u =
      s.tableWord s.current u := by
    intro u hu
    simp only [installTable, State.tableWord, setDir_self, Function.update_of_ne hu]
  refine ⟨rfl, rfl, rfl, hword _ hw, hword _ hp, ?_⟩
  rw [storedEntry, storedEntry, hword _ hp]
  exact id

theorem clearTable_bears (h0 : P 0) (ha : Anchored s p) (page : ℕ) :
    Bears P p s (clearTable s s.current page) := by
  have h1 := mapTable_bears (P := P) ha page
  simp only [clearTable]
  generalize (mapTable s s.current page).2 = x at h1
  have h2 := h1.trans (zeroFrame_bears h0 x.window)
  split
  · have h3 := mapTable_bears (P := P) (h2.anchored ha) (s.dirs s.current).currentTable
    rw [h2.current] at h3
    exact h2.trans h3
  · exact h2

theorem growTable_bears (h0 : P 0) (ha : Anchored s p) (hp : p / 1024 ≠ t)
    (hw : s.tableFrame / 1024 ≠ t) (h : growTable s s.current t = some s') : Bears P p s s' := by
  obtain ⟨y, hy, rfl⟩ := map_eq_some_iff.1 h
  obtain ⟨⟨g, ph⟩, -, rfl⟩ := map_eq_some_iff.1 hy
  have h1 := installTable_bears (P := P) g ph hp hw
  have h2 := h1.trans (clearTable_bears h0 (h1.anchored ha) g)
  rw [h1.current] at h2
  generalize clearTable (installTable s s.current t g ph) s.current g = y at h2
  have h3 := mapTable_bears (P := P) (h2.anchored ha) (y.tableWord s.current t)
  rw [h2.current] at h3
  exact (h2.trans h3).trans (zeroFrame_bears h0 _)

theorem showTable_bears (h0 : P 0) (ha : Anchored s p)
    (h : showTable s s.current t = some s') : Bears P p s s' ∧
      (t = p / 1024 → s'.window = addressOf (s.tableWord s.current (p / 1024))) := by
  simp only [showTable] at h
  by_cases haddr : addressOf (s.tableWord s.current t) = 0
  · have hp : p / 1024 ≠ t := by
      rintro rfl
      exact ha.address haddr
    have hw : s.tableFrame / 1024 ≠ t := by
      rintro rfl
      exact ha.windowAddress haddr
    rw [mapTable_false haddr, if_neg fun hc => Bool.false_ne_true hc.2] at h
    exact ⟨growTable_bears h0 ha hp hw h, fun heq => absurd heq.symm hp⟩
  · have hbears := mapTable_bears (P := P) ha (s.tableWord s.current t)
    rw [mapTable, if_neg haddr, if_pos ha.windowPresent] at h hbears
    rw [if_pos ⟨ne_zero_of_address haddr, rfl⟩] at h
    cases h
    refine ⟨hbears, ?_⟩
    rintro rfl
    exact pointWindow_window rfl _

theorem storeEntry_bears (idx : ℕ) (he : P e) : Bears P p s (storeEntry s s.current idx e) :=
  (writeWord_bears he).trans (setCache_bears _)

/-- **Writing an entry.** -/
theorem setTableEntry_bears (h0 : P 0) (he : P e) (ha : Anchored s p)
    (h : setTableEntry s s.current idx e = some s') : Bears P p s s' := by
  obtain ⟨x, hx, rfl⟩ := map_eq_some_iff.1 h
  have h1 := (showTable_bears h0 ha hx).1
  have h2 := storeEntry_bears (s := x) (p := p) idx he
  rw [h1.current] at h2
  exact h1.trans h2

theorem setTableEntry_hits (ha : Anchored s p)
    (h : setTableEntry s s.current p e = some s') : storedEntry s' s.current p = e := by
  obtain ⟨x, hx, rfl⟩ := map_eq_some_iff.1 h
  obtain ⟨h1, hwin⟩ := showTable_bears (P := fun _ => True) trivial ha hx
  rw [← h1.current, storedEntry, storeEntry_tableWord, storeEntry_frames, h1.current, h1.word,
    if_neg ha.address, if_pos ⟨(hwin rfl).symm, rfl⟩]

theorem getTableEntry_bears (ha : Anchored s p) (idx : ℕ) : Bears P p s (getTableEntry s s.current idx).2 := by
  have h1 : Bears P p s (s.touched s.current idx) := setCache_bears _
  by_cases hhit : (entrycacheGet (s.dirs s.current).entrycache idx).1 = 0
  · rw [getTableEntry_miss hhit]
    have h2 := h1.trans (mapTable_bears (h1.anchored ha)
      ((s.touched s.current idx).tableWord s.current (idx / 1024)))
    rw [h1.current] at h2
    generalize mapTable (s.touched s.current idx) s.current
      ((s.touched s.current idx).tableWord s.current (idx / 1024)) = r at h2
    have h3 := setCache_bears (P := P) (p := p) (s := r.2) (entrycacheSet
      (r.2.dirs s.current).entrycache idx (if r.1 then r.2.frames r.2.window (idx % 1024) else 0))
    rw [h2.current] at h3
    exact h2.trans h3
  · rw [getTableEntry_hit hhit]
    exact h1

theorem releaseEntry_bears (e : ℕ) : Bears P p s (releaseEntry s e) := by
  rw [releaseEntry_eq]
  exact physical_bears _

theorem Noted.bears (h : Noted s s') : Bears P p s s' :=
  .aside h.kept.current h.kept.tableFrame (by rw [h.rest]) (by rw [h.rest])
    fun t => congrFun (h.carried.directory s.current) t

/-! ### The loops -/

/-- **A turn of `free_pages`**, with the page it frees. -/
theorem freeTurn_bears (h0 : P 0) (ha : Anchored s p) (h : freeTurn addr i s = some s') : Bears P p s s' ∧
      (pageAddr addr i / 4096 = p → P (storedEntry s' s.current p)) := by
  simp only [freeTurn, pageSize] at h
  generalize pageAddr addr i = a at h ⊢
  have h1 : Bears P p s _ := (lowerHint_noted s (a / 4096)).bears
  generalize lowerHint s (a / 4096) = s1 at h h1
  have h2 := h1.trans (getTableEntry_bears (h1.anchored ha) (a / 4096))
  generalize getTableEntry s1 s1.current (a / 4096) = r at h h2
  have h3 := h2.trans (releaseEntry_bears r.1)
  obtain ⟨x, hx, rfl⟩ := map_eq_some_iff.1 h
  rw [h1.current, ← h3.current] at hx
  have h4 := h3.trans (setTableEntry_bears h0 h0 (h3.anchored ha) hx)
  have h5 : Bears P p x _ := (count_noted x a (sub32 · 1)).bears
  refine ⟨h4.trans h5, ?_⟩
  rintro rfl
  have hhit := setTableEntry_hits (h3.anchored ha) hx
  rw [h3.current] at hhit
  have hkeep := h5.keeps
  rw [h4.current, hhit] at hkeep
  exact hkeep h0

/-- **A loop of `free_pages` that comes to page `p`** leaves 0 in its entry, whatever else it frees. -/
theorem freePages_bears (h0 : P 0) (ha : Anchored s p) (hi₀ : i₀ < n)
    (hp : pageAddr addr i₀ / 4096 = p) (h : freePages s addr n = some s') :
    Bears P p s s' ∧ P (storedEntry s' s.current p) := by
  have key := turns_invariant
    (fun i u => Bears P p s u ∧ (i₀ < i → P (storedEntry u s.current p)))
    ⟨Bears.refl s, fun hi => absurd hi (Nat.not_lt_zero _)⟩ n ?_ h
  · exact ⟨key.1, key.2 hi₀⟩
  · rintro i - u v - ⟨hsu, hu⟩ hv
    obtain ⟨huv, hhit⟩ := freeTurn_bears h0 (hsu.anchored ha) hv
    rw [hsu.current] at hhit
    refine ⟨hsu.trans huv, fun hi => ?_⟩
    by_cases heq : i = i₀
    · subst heq
      exact hhit hp
    · have hkeep := huv.keeps
      rw [hsu.current] at hkeep
      exact hkeep (hu (by omega))

theorem guardPageAt_bears (ha : Anchored s p) (hready : s.schedulerReady = true)
    (h : guardPageAt s ptr = some s') : Bears (fun e => present e = false) p s s' := by
  have hget := getTableEntry_bears (P := fun e => present e = false) ha (ptr / 4096)
  simp only [guardPageAt, pageSize, hready, if_true] at h
  generalize getTableEntry s s.current (ptr / 4096) = r at h hget
  obtain ⟨hp, h⟩ := ite_none_left_eq_some.1 h
  rw [← hget.current] at h
  refine hget.trans (setTableEntry_bears rfl ?_ (hget.anchored ha) h)
  rw [present_or_guardPage]
  exact eq_false_of_ne_true hp

theorem guardPages_bears (ha : Anchored s p) (hready : s.schedulerReady = true)
    (h : turns (fun i s => guardPageAt s (addr + i * pageSize)) n s = some s') :
    Bears (fun e => present e = false) p s s' := by
  refine turns_invariant (fun _ u => Bears (fun e => present e = false) p s u) (Bears.refl s) n ?_ h
  intro i _ u v _ hsu hv
  exact hsu.trans (guardPageAt_bears (hsu.anchored ha) (hsu.schedulerReady.trans hready) hv)

end

end Btos.Kernel.Mm2
