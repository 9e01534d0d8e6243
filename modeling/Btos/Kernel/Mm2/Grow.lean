import Btos.Kernel.Mm2.Read

/-!
# Showing the table of a page, made if it is missing

The first part of `set_table_entry` on the current directory: the window is pointed at the table, for which a
page is taken and cleared if there is none.  Other directories get a new word of the kernel half by `mm2_switch`.

* `growTable_spec`, `Grown.stored`, `Grown.tables` — **no stored entry changes** when a table is made,
  and sound tables stay sound.
-/

namespace Btos.Kernel.Mm2

open Option State

/-! ### Showing tables, without assumptions on them -/

/-- Only the window's entry and the note of the current table differ. -/
structure Shown (s s' : State) : Prop where
  rest : s' = { s with frames := s'.frames, dirs := s'.dirs }
  dirs : ∀ d, s'.dirs d = { s.dirs d with currentTable := (s'.dirs d).currentTable }
  frames : ∀ f j, ¬(f = s.windowTable s.current ∧ j = s.tableFrame % 1024) → s'.frames f j = s.frames f j

theorem Shown.refl (s : State) : Shown s s := ⟨rfl, fun _ => rfl, fun _ _ _ => rfl⟩

theorem Shown.tableWord (h : Shown s s') (d : Pid) (t : ℕ) : s'.tableWord d t = s.tableWord d t := by
  rw [State.tableWord, h.dirs d]
  rfl

theorem mapTable_shown (hd : d = s.current) (ta : ℕ) : Shown s (mapTable s d ta).2 := by
  subst hd
  rcases mapTable_cases s s.current ta with h | ⟨-, -, h⟩
  · rw [h]
    exact Shown.refl s
  · rw [h]
    refine ⟨rfl, pointWindow_dirs s s.current _, ?_⟩
    intro f j hne
    rw [pointWindow_frames, if_neg hne]

/-! ### A new table -/

/-- The window can be used: the table that holds its entry is there and is not `Free`. -/
structure Usable (s : State) : Prop where
  isPresent : present (s.tableWord s.current (s.tableFrame / 1024)) = true
  inUse : ¬IsFree s.physical (s.windowTable s.current)

theorem Tables.usable (ht : Tables s) : Usable s := by
  have hlt := Nat.lt_trans ht.windowIndex_lt (show kernelTables < 1024 by decide)
  exact ⟨(ht.words _ _ ht.live_current hlt ht.windowed).1, ht.inUse _ _ ht.live_current hlt ht.windowed⟩

/-- `x` is `s` with a new table, the page at `addressOf w`, in the current directory; what that page
holds and what the window shows is open. -/
structure Grown (s x : State) (t w : ℕ) : Prop where
  rest : x = { s with frames := x.frames, dirs := x.dirs, physical := x.physical }
  dirs : ∀ d, x.dirs d = { s.dirs d with
    directory := (x.dirs d).directory, currentTable := (x.dirs d).currentTable }
  word : x.tableWord s.current t = w
  words : ∀ d u, d ≠ s.current ∨ u ≠ t → x.tableWord d u = s.tableWord d u
  alloc : Allocated s.physical (addressOf w) x.physical
  isPresent : present w = true
  frames : ∀ f j, f ≠ addressOf w → ¬(f = s.windowTable s.current ∧ j = s.tableFrame % 1024) →
    x.frames f j = s.frames f j

namespace Grown

variable {s x x' : State} {t w : ℕ}

theorem current (h : Grown s x t w) : x.current = s.current := by rw [h.rest]

theorem live (h : Grown s x t w) : x.live = s.live := by rw [h.rest]

theorem tableFrame (h : Grown s x t w) : x.tableFrame = s.tableFrame := by rw [h.rest]

theorem window_ne (hu : Usable s) (h0 : s.tableWord s.current t = 0) : s.tableFrame / 1024 ≠ t := by
  rintro rfl
  exact ne_zero_of_present hu.isPresent h0

section

variable (h : Grown s x t w)
include h

theorem windowWord (hu : Usable s) (h0 : s.tableWord s.current t = 0) :
    x.tableWord s.current (s.tableFrame / 1024) = s.tableWord s.current (s.tableFrame / 1024) :=
  h.words _ _ (.inr (window_ne hu h0))

theorem windowTable (hu : Usable s) (h0 : s.tableWord s.current t = 0) :
    x.windowTable x.current = s.windowTable s.current := by
  rw [State.windowTable, State.windowTable, h.current, h.tableFrame, h.windowWord hu h0]

theorem fresh_window (hu : Usable s) : addressOf w ≠ s.windowTable s.current := by
  intro heq
  refine hu.inUse ?_
  rw [← heq]
  exact h.alloc.wasFree

theorem shown (hu : Usable s) (h0 : s.tableWord s.current t = 0)
    (hs : Shown x x') : Grown s x' t w where
  rest := by rw [hs.rest, h.rest]
  dirs d := by rw [hs.dirs d, h.dirs d]
  word := (hs.tableWord _ _).trans h.word
  words d u hne := (hs.tableWord _ _).trans (h.words d u hne)
  alloc := by rw [hs.rest]; exact h.alloc
  isPresent := h.isPresent
  frames := by
    intro f j hf hslot
    rw [hs.frames f j (by rw [h.windowTable hu h0, h.tableFrame]; exact hslot), h.frames f j hf hslot]

theorem zero : Grown s (x.zeroFrame (addressOf w)) t w where
  rest := by
    rw [zeroFrame, h.rest]
  dirs d := h.dirs d
  word := h.word
  words := h.words
  alloc := h.alloc
  isPresent := h.isPresent
  frames := by
    intro f j hf hslot
    show (if f = addressOf w then 0 else x.frames f j) = _
    rw [if_neg hf, h.frames f j hf hslot]

end

end Grown

theorem tableFlags_ok (t : ℕ) : tableFlags t < 4096 ∧ tableFlags t % 2 = 1 := by
  unfold tableFlags
  split <;> decide

theorem installTable_grown (ha : Allocated s.physical g ph) :
    Grown s (installTable s s.current t g ph) t (g ||| tableFlags t) := by
  obtain ⟨hlt, hodd⟩ := tableFlags_ok t
  have haddr : addressOf (g ||| tableFlags t) = g := addressOf_or ha.aligned ha.lt hlt
  refine ⟨rfl, ?_, ?_, ?_, by rw [haddr]; exact ha, ?_, fun _ _ _ _ => rfl⟩
  · intro d
    by_cases hd : d = s.current
    · subst hd
      simp only [installTable, setDir_self]
    · simp only [installTable, setDir_of_ne _ _ hd]
  · simp only [installTable, tableWord, setDir_self, Function.update_self]
  · intro d u hne
    by_cases hd : d = s.current
    · subst hd
      have hu : u ≠ t := hne.resolve_left fun h => h rfl
      simp only [installTable, tableWord, setDir_self, Function.update_of_ne hu]
    · simp only [installTable, tableWord, setDir_of_ne _ _ hd]
  · rw [present_or ha.aligned hlt, hodd]
    rfl

variable {s x : State} {t w : ℕ}

/-- In a directory that has grown, the new page is what the window shows after `mapTable`. -/
theorem Grown.mapTable_window (h : Grown s x t w) (hu : Usable s) (h0 : s.tableWord s.current t = 0)
    (hta : addressOf ta = addressOf w) : (mapTable x s.current ta).2.window = addressOf w ∧
      present ((mapTable x s.current ta).2.frames (s.windowTable s.current) (s.tableFrame % 1024)) = true := by
  have hpres : present (x.tableWord x.current (x.tableFrame / 1024)) = true := by
    rw [h.current, h.tableFrame, h.windowWord hu h0]
    exact hu.isPresent
  have hpos : addressOf ta ≠ 0 := by
    rw [hta]
    exact Nat.ne_of_gt h.alloc.pos
  rw [← h.windowTable hu h0, ← h.tableFrame, ← h.current, mapTable, if_neg hpos, if_pos hpres, hta]
  refine ⟨pointWindow_window rfl w, ?_⟩
  rw [pointWindow_frames, if_pos ⟨rfl, rfl⟩, present_or (addressOf_aligned _) (by decide)]
  rfl

theorem Grown.clearTable (h : Grown s x t w) (hu : Usable s) (h0 : s.tableWord s.current t = 0)
    (hg : addressOf g = addressOf w) : Grown s (clearTable x s.current g) t w := by
  have hwin := (h.mapTable_window hu h0 hg).1
  have hzero := (h.shown hu h0 (mapTable_shown h.current.symm g)).zero
  rw [← hwin] at hzero
  simp only [Mm2.clearTable]
  split
  · exact hzero.shown hu h0 (mapTable_shown hzero.current.symm _)
  · exact hzero

/-- **A new table**: empty, shown in the window, and otherwise the tables are as before. -/
theorem growTable_spec (hu : Usable s) (h0 : s.tableWord s.current t = 0)
    (h : growTable s s.current t = some x) :
    ∃ w, Grown s x t w ∧ (∀ j, x.frames (addressOf w) j = 0) ∧ x.window = addressOf w ∧
      present (x.frames (s.windowTable s.current) (s.tableFrame % 1024)) = true := by
  obtain ⟨y, hy, rfl⟩ := map_eq_some_iff.1 h
  obtain ⟨⟨g, ph⟩, halloc, rfl⟩ := map_eq_some_iff.1 hy
  have ha := physicalAlloc_spec halloc
  have hg : addressOf g = addressOf (g ||| tableFlags t) := by
    rw [addressOf_self ha.aligned ha.lt, addressOf_or ha.aligned ha.lt (tableFlags_ok t).1]
  have hy := (installTable_grown ha).clearTable hu h0 hg
  generalize clearTable (installTable s s.current t g ph) s.current g = y at hy ⊢
  generalize g ||| tableFlags t = w at hy
  obtain ⟨hwin, hslot⟩ := hy.mapTable_window hu h0 (show addressOf
    (y.tableWord s.current t) = addressOf w by rw [hy.word])
  have hshown := hy.shown hu h0 (mapTable_shown hy.current.symm (y.tableWord s.current t))
  generalize hz : (mapTable y s.current (y.tableWord s.current t)).2 = z at hwin hslot hshown
  simp only [hwin]
  have hfinal := hshown.zero
  have hne := hy.fresh_window hu
  have hkeep : (z.zeroFrame (addressOf w)).frames (s.windowTable s.current) (s.tableFrame % 1024) =
      z.frames (s.windowTable s.current) (s.tableFrame % 1024) := if_neg (Ne.symm hne)
  refine ⟨w, hfinal, fun j => if_pos rfl, ?_, by rw [hkeep]; exact hslot⟩
  rw [window, hfinal.windowTable hu h0, hfinal.tableFrame, hkeep, ← hshown.windowTable hu h0,
    ← hshown.tableFrame]
  exact hwin

section

variable (h : Grown s x t w) (ht : Tables s)
include h ht

theorem Grown.fresh (hd : s.live d = true)
    (hu : u < 1024) (hw : s.tableWord d u ≠ 0) : addressOf (s.tableWord d u) ≠ addressOf w := by
  intro heq
  refine ht.inUse d u hd hu hw ?_
  rw [heq]
  exact h.alloc.wasFree

theorem Grown.stored (h0 : s.tableWord s.current t = 0)
    (hz : ∀ j, x.frames (addressOf w) j = 0) (hd : s.live d = true) (hidx : idx < 2 ^ 20)
    (hne : idx ≠ s.tableFrame) : storedEntry x d idx = storedEntry s d idx := by
  by_cases hnew : d = s.current ∧ idx / 1024 = t
  · obtain ⟨rfl, rfl⟩ := hnew
    rw [stored_of_no_word h0, storedEntry, h.word, hz]
    exact ite_self 0
  · exact stored_congr (h.words _ _ (Decidable.not_and_iff_not_or_not.1 hnew)) fun hw =>
      h.frames _ _ (h.fresh ht hd (by omega) hw) (ht.slot_ne hd hidx hne hw)

theorem Grown.tables (htlt : t < 1024) (h0 : s.tableWord s.current t = 0)
    (hz : ∀ j, x.frames (addressOf w) j = 0)
    (hslot : present (x.frames (s.windowTable s.current) (s.tableFrame % 1024)) = true) : Tables x := by
  -- a table word of `x` is the new one or an old one
  have hcase : ∀ d u, (d = s.current ∧ u = t ∧ x.tableWord d u = w) ∨
      (x.tableWord d u = s.tableWord d u ∧ (d = s.current → u ≠ t)) := by
    intro d u
    by_cases hnew : d = s.current ∧ u = t
    · obtain ⟨rfl, rfl⟩ := hnew
      exact .inl ⟨rfl, rfl, h.word⟩
    · exact .inr ⟨h.words _ _ (Decidable.not_and_iff_not_or_not.1 hnew),
        fun hd hu => hnew ⟨hd, hu⟩⟩
  refine ⟨?_, ?_, ?_, ?_, ?_, ?_, ?_, ?_, ?_, ?_, ?_, ?_⟩
  · rw [h.tableFrame]
    exact ht.frame_lt
  · rw [h.tableFrame]
    exact ht.frame_pos
  · rw [h.live, h.current]
    exact ht.live_current
  · rw [h.current, h.tableFrame, h.windowWord ht.usable h0]
    exact ht.windowed
  · intro d u
    rw [h.live]
    intro hd hu hne
    rcases hcase d u with ⟨-, -, hw⟩ | ⟨hw, -⟩
    · rw [hw]
      exact ⟨h.isPresent, Nat.ne_of_gt h.alloc.pos⟩
    · rw [hw] at hne ⊢
      exact ht.words d u hd hu hne
  · intro d u
    rw [h.live, h.current]
    intro hd hu hne
    rcases hcase d u with ⟨rfl, rfl, hw⟩ | ⟨hw, hnot⟩
    · rfl
    · rw [hw] at hne ⊢
      rcases hcase s.current u with ⟨-, rfl, -⟩ | ⟨hw', -⟩
      · -- another directory has the table already, so the current one would have it too
        exact absurd (ht.shared d u hd hu hne ▸ h0) hne
      · rw [hw']
        exact ht.shared d u hd hu hne
  · intro d d' u u'
    rw [h.live]
    intro hd hd' hu hu' hne hne' heq
    rcases hcase d u with ⟨rfl, rfl, hw⟩ | ⟨hw, -⟩ <;>
      rcases hcase d' u' with ⟨rfl, rfl, hw'⟩ | ⟨hw', -⟩
    · exact ⟨rfl, .inl rfl⟩
    · rw [hw, hw'] at heq
      rw [hw'] at hne'
      exact absurd heq.symm (h.fresh ht hd' hu' hne')
    · rw [hw, hw'] at heq
      rw [hw] at hne
      exact absurd heq (h.fresh ht hd hu hne)
    · rw [hw, hw'] at heq
      rw [hw] at hne
      rw [hw'] at hne'
      exact ht.apart d d' u u' hd hd' hu hu' hne hne' heq
  · intro d u
    rw [h.live]
    intro hd hu hne
    rcases hcase d u with ⟨-, -, hw⟩ | ⟨hw, -⟩
    · rw [hw, h.alloc.free_iff]
      exact fun hfree => hfree.2 rfl
    · rw [hw] at hne ⊢
      rw [h.alloc.free_iff]
      exact fun hfree => ht.inUse d u hd hu hne hfree.1
  · intro d idx
    rw [h.live, h.tableFrame]
    intro hd hidx hne
    rw [h.stored ht h0 hz hd hidx hne]
    exact ht.entries d idx hd hidx hne
  · rw [h.windowTable ht.usable h0, h.tableFrame]
    exact hslot
  · intro d
    rw [h.live, h.dirs d]
    intro hd c hc he hi
    rcases ht.cached d hd c hc he hi with ⟨hF, hp⟩ | ⟨hF, hlt, heq⟩
    · exact .inl ⟨by rw [h.tableFrame]; exact hF, hp⟩
    · refine .inr ⟨by rw [h.tableFrame]; exact hF, hlt, ?_⟩
      rw [h.stored ht h0 hz hd hlt hF]
      exact heq
  · rw [h.current, h.stored ht h0 hz ht.live_current (by decide) (Nat.ne_of_lt ht.frame_pos)]
    exact ht.null

end

/-! ### The table of a page is shown -/

/-- `x` is `s` with table `t` of the current directory in place and shown in the window. -/
structure Prepared (s x : State) (t : ℕ) : Prop where
  rest : x = { s with frames := x.frames, dirs := x.dirs, physical := x.physical }
  dirs : ∀ d, x.dirs d = { s.dirs d with
    directory := (x.dirs d).directory, currentTable := (x.dirs d).currentTable }
  word : x.tableWord s.current t ≠ 0
  window : x.window = addressOf (x.tableWord s.current t)
  words : ∀ d u, x.tableWord d u = s.tableWord d u ∨ (d = s.current ∧ u = t ∧
    s.tableWord d u = 0 ∧ IsFree s.physical (addressOf (x.tableWord d u)))
  free : ∀ g, IsFree x.physical g → IsFree s.physical g
  stored : ∀ d idx, s.live d = true → idx < 2 ^ 20 → idx ≠ s.tableFrame →
    storedEntry x d idx = storedEntry s d idx

theorem showTable_spec (ht : Tables s) (htlt : t < 1024) (h : showTable s s.current t = some x) :
    Tables x ∧ Prepared s x t := by
  simp only [showTable] at h
  by_cases h0 : s.tableWord s.current t = 0
  · rw [if_neg fun hc => hc.1 h0] at h
    obtain ⟨w, hgrown, hz, hwin, hslot⟩ := growTable_spec ht.usable h0 h
    refine ⟨hgrown.tables ht htlt h0 hz hslot, hgrown.rest, hgrown.dirs, ?_, ?_, ?_, ?_, ?_⟩
    · rw [hgrown.word]
      exact ne_zero_of_present hgrown.isPresent
    · rw [hgrown.word]
      exact hwin
    · intro d u
      by_cases hnew : d = s.current ∧ u = t
      · obtain ⟨rfl, rfl⟩ := hnew
        refine .inr ⟨rfl, rfl, h0, ?_⟩
        rw [hgrown.word]
        exact hgrown.alloc.wasFree
      · exact .inl (hgrown.words _ _ (Decidable.not_and_iff_not_or_not.1 hnew))
    · intro g hg
      exact ((hgrown.alloc.free_iff g).1 hg).1
    · intro d idx hd hidx hne
      exact hgrown.stored ht h0 hz hd hidx hne
  · have ha := (ht.words _ _ ht.live_current htlt h0).2
    obtain ⟨htrue, hwin⟩ := ht.mapTable_window ht.live_current ht.windowed ha
    have hquiet := ht.mapTable_word_quiet ht.live_current htlt
    have hshown := mapTable_shown (s := s) rfl (s.tableWord s.current t)
    rw [if_pos ⟨h0, htrue⟩] at h
    cases h
    refine ⟨ht.quiet hquiet, ?_, ?_, ?_, ?_, ?_, ?_, ?_⟩
    · rw [hshown.rest]
    · intro d
      rw [hshown.dirs d]
    · rw [hquiet.tableWord]
      exact h0
    · rw [hquiet.tableWord]
      exact hwin
    · intro d u
      exact .inl (hquiet.tableWord d u)
    · intro g
      rw [hquiet.physical]
      exact id
    · intro d idx hd hidx hne
      exact hquiet.stored ht hd hidx hne

end Btos.Kernel.Mm2
