import Btos.Kernel.Mm2.Grow

/-!
# Writing an entry

`set_table_entry` on the current directory: the table of the page is shown, made if it is missing,
and the entry is written through the window.

* `Written` — **what writing does to the stored entries**: the entry of the page changes in the
  current directory, and, for a page of the kernel half, in every directory that has its table.
-/

namespace Btos.Kernel.Mm2

open State

/-! ### The entry is written -/

/-- Writing the entry of page `idx` through the current directory is seen by directory `d`. -/
def Sees (s : State) (d : Pid) (idx : ℕ) : Prop :=
  s.tableWord d (idx / 1024) ≠ 0 ∧ (d = s.current ∨ idx < kernelPages)

/-- No other directory has another entry for the kernel page `idx` in its cache.  Nothing is looked
up for page 0. -/
def NotCachedElsewhere (s : State) (idx e : ℕ) : Prop :=
  0 < idx → idx < kernelPages → ∀ d, s.live d = true → d ≠ s.current →
    ∀ c ∈ (s.dirs d).entrycache, c.index = idx → c.entry = 0 ∨ c.entry = e

section Store

variable {s : State} {idx e : ℕ}

theorem storeEntry_tableWord (d : Pid) (t : ℕ) :
    (storeEntry s s.current idx e).tableWord d t = s.tableWord d t := by
  rw [storeEntry, setCache_tableWord]
  rfl

theorem storeEntry_dirs (d : Pid) : (storeEntry s s.current idx e).dirs d =
    { s.dirs d with entrycache := ((storeEntry s s.current idx e).dirs d).entrycache } := by
  unfold storeEntry setCache
  by_cases hd : d = s.current
  · subst hd
    rw [setDir_self]
    rfl
  · rw [setDir_of_ne _ _ hd]
    rfl

theorem storeEntry_frames (f j : ℕ) : (storeEntry s s.current idx e).frames f j =
    if f = s.window ∧ j = idx % 1024 then e else s.frames f j := rfl

theorem Sees.table (ht : Tables s) (hd : s.live d = true) (h : Sees s d idx) :
    s.tableWord d (idx / 1024) = s.tableWord s.current (idx / 1024) := by
  obtain ⟨hw, hcase⟩ := h
  rcases hcase with rfl | hk
  · rfl
  · exact ht.shared d _ hd (kernel_table_iff.2 hk) hw

theorem storeEntry_stored (ht : Tables s) (hidx : idx < 2 ^ 20) (hword : s.tableWord s.current (idx / 1024) ≠ 0)
    (hwin : s.window = addressOf (s.tableWord s.current (idx / 1024)))
    (hd : s.live d = true) (hj : j < 2 ^ 20) :
    (j = idx ∧ Sees s d idx → storedEntry (storeEntry s s.current idx e) d j = e) ∧ (¬(j = idx ∧ Sees s d idx) →
      storedEntry (storeEntry s s.current idx e) d j = storedEntry s d j) := by
  constructor
  · rintro ⟨rfl, hsees⟩
    have ha := (ht.words d _ hd (by omega) hsees.1).2
    rw [storedEntry, storeEntry_tableWord, if_neg ha, storeEntry_frames, hwin,
      hsees.table ht hd, if_pos ⟨rfl, rfl⟩]
  · intro hnot
    refine stored_congr (storeEntry_tableWord d _) fun hw => ?_
    rw [storeEntry_frames, hwin, if_neg]
    rintro ⟨hf, hm⟩
    -- the same word of the same table: the same page
    obtain ⟨ht', hcase⟩ := ht.apart d s.current (j / 1024) (idx / 1024) hd ht.live_current
      (by omega) (by omega) hw hword hf
    have hji : j = idx := by omega
    subst hji
    exact hnot ⟨rfl, hw, hcase.imp id kernel_table_iff.1⟩

theorem storeEntry_windowTable (d : Pid) : (storeEntry s s.current idx e).windowTable d = s.windowTable d := by
  rw [windowTable, storeEntry_tableWord]
  rfl

section Shown

variable (ht : Tables s) (hidx : idx < 2 ^ 20) (hF : idx ≠ s.tableFrame)
  (hword : s.tableWord s.current (idx / 1024) ≠ 0)
  (hwin : s.window = addressOf (s.tableWord s.current (idx / 1024)))
include ht hidx hF hword hwin

theorem storeEntry_slot :
    (storeEntry s s.current idx e).frames (s.windowTable s.current) (s.tableFrame % 1024) =
      s.frames (s.windowTable s.current) (s.tableFrame % 1024) := by
  have hslot := ht.slot_ne ht.live_current hidx hF hword
  rw [storeEntry_frames, hwin, if_neg fun h => hslot ⟨h.1.symm, h.2.symm⟩]

theorem storeEntry_window : (storeEntry s s.current idx e).window = s.window := by
  show addressOf ((storeEntry s s.current idx e).frames
    ((storeEntry s s.current idx e).windowTable s.current) (s.tableFrame % 1024)) = _
  rw [storeEntry_windowTable, storeEntry_slot ht hidx hF hword hwin]
  rfl

theorem storeEntry_tables (he : EntryOk e) (hnull : idx = 0 → e ≠ 0) (hother : NotCachedElsewhere s idx e) :
    Tables (storeEntry s s.current idx e) := by
  have hstored := fun (d : Pid) (hd : s.live d = true) (j : ℕ) (hj : j < 2 ^ 20) =>
    storeEntry_stored (e := e) ht hidx hword hwin hd hj
  have hsource : Sourced s (storeEntry s s.current idx e) := ⟨rfl, ht.live_current,
    fun t _ => storeEntry_tableWord s.current t,
    fun {d t} hd _ => ⟨d, hd, storeEntry_tableWord d t, .inl rfl⟩⟩
  refine hsource.tables ht (fun _ _ => id) ?_ ?_ ?_ ?_
  · intro d j hd hj hne
    by_cases hhit : j = idx ∧ Sees s d idx
    · rw [(hstored d hd j hj).1 hhit]
      exact he
    · rw [(hstored d hd j hj).2 hhit]
      exact ht.entries d j hd hj hne
  · rw [storeEntry_slot ht hidx hF hword hwin]
    exact ht.windowEntry
  · intro d hd c hc hne h0
    -- entries for the page are gone from the own cache, and others do not contradict it
    have hold : c ∈ (s.dirs d).entrycache ∧ (d = s.current → c.index ≠ idx) := by
      simp only [storeEntry, setCache] at hc
      by_cases hdd : d = s.current
      · subst hdd
        rw [setDir_self] at hc
        exact ⟨(mem_entrycacheClear hc h0).1, fun _ => (mem_entrycacheClear hc h0).2⟩
      · rw [setDir_of_ne _ _ hdd] at hc
        exact ⟨hc, fun h => absurd h hdd⟩
    rcases ht.cached d hd c hold.1 hne h0 with hwinEntry | ⟨hcF, hlt, heq⟩
    · exact .inl hwinEntry
    · refine .inr ⟨hcF, hlt, ?_⟩
      by_cases hhit : c.index = idx ∧ Sees s d idx
      · rw [(hstored d hd c.index hlt).1 hhit]
        obtain ⟨hi, -, hcase⟩ := hhit
        have hdne : d ≠ s.current := fun hdd => hold.2 hdd hi
        exact (hother (hi ▸ Nat.pos_of_ne_zero h0) (hcase.resolve_left hdne) d hd hdne c hold.1
          hi).resolve_left hne
      · rw [(hstored d hd c.index hlt).2 hhit]
        exact heq
  · show storedEntry (storeEntry s s.current idx e) s.current 0 ≠ 0
    by_cases hhit : 0 = idx ∧ Sees s s.current idx
    · rw [(hstored s.current ht.live_current 0 (by decide)).1 hhit]
      exact hnull hhit.1.symm
    · rw [(hstored s.current ht.live_current 0 (by decide)).2 hhit]
      exact ht.null

end Shown

end Store

/-- `s'` is `s` after the entry `e` has been stored for page `idx` of the current directory.  The
table of the page may be new; it was a `Free` page then. -/
structure Written (s s' : State) (idx e : ℕ) : Prop where
  kept : Kept s s'
  cache : ∀ d, d ≠ s.current → (s'.dirs d).entrycache = (s.dirs d).entrycache
  word : s'.tableWord s.current (idx / 1024) ≠ 0
  words : ∀ d u, s'.tableWord d u = s.tableWord d u ∨ (d = s.current ∧ u = idx / 1024 ∧
    s.tableWord d u = 0 ∧ IsFree s.physical (addressOf (s'.tableWord d u)))
  shows : IsTable s' s'.window
  hit : ∀ d, s.live d = true → Sees s' d idx → storedEntry s' d idx = e
  other : ∀ d j, s.live d = true → j < 2 ^ 20 → j ≠ s.tableFrame → ¬(j = idx ∧ Sees s' d idx) →
    storedEntry s' d j = storedEntry s d j

theorem Written.stored_current (h : Written s s' idx e) (ht : Tables s) : storedEntry s' s.current idx = e :=
  h.hit _ ht.live_current ⟨h.word, .inl h.kept.current.symm⟩

/-- **Writing an entry.** -/
theorem setTableEntry_spec (ht : Tables s) (hidx : idx < 2 ^ 20)
    (hF : idx ≠ s.tableFrame) (he : EntryOk e) (hnull : idx = 0 → e ≠ 0)
    (hother : NotCachedElsewhere s idx e) (h : setTableEntry s s.current idx e = some s') :
    Tables s' ∧ Written s s' idx e ∧ ∀ g, IsFree s'.physical g → IsFree s.physical g := by
  obtain ⟨x, hx, rfl⟩ := Option.map_eq_some_iff.1 h
  obtain ⟨htx, hp⟩ := showTable_spec ht (by omega) hx
  have hcur : s.current = x.current := by rw [hp.rest]
  have hlive : x.live = s.live := by rw [hp.rest]
  have hframe : x.tableFrame = s.tableFrame := by rw [hp.rest]
  have hword := hp.word
  have hwin := hp.window
  rw [hcur] at hword hwin
  have hother' : NotCachedElsewhere x idx e := by
    intro hpos hk d hd hne c hc
    rw [hp.dirs d] at hc
    exact hother hpos hk d (by rw [← hlive]; exact hd) (by rw [hcur]; exact hne) c hc
  have hsees : ∀ d, Sees (storeEntry x s.current idx e) d idx ↔ Sees x d idx := by
    intro d
    rw [hcur, Sees, storeEntry_tableWord]
    exact Iff.rfl
  have hstored := fun (d : Pid) (hd : x.live d = true) (j : ℕ) (hj : j < 2 ^ 20) =>
    storeEntry_stored (e := e) htx hidx hword hwin hd hj
  rw [hcur] at hsees ⊢
  refine ⟨storeEntry_tables htx hidx (by rw [hframe]; exact hF) hword hwin he hnull hother',
    ⟨?_, ?_, ?_, ?_, ?_, ?_, ?_⟩, hp.free⟩
  · refine ⟨⟨hlive, hcur.symm, hframe⟩, ?_, ?_, ?_, ?_, ?_, ?_, fun d => ?_, fun d => ?_, fun d => ?_⟩
    all_goals first
      | rw [storeEntry_dirs, hp.dirs d]
      | (rw [hp.rest]; rfl)
  · intro d hne
    simp only [storeEntry, setCache]
    rw [setDir_of_ne _ _ (hcur ▸ hne)]
    show (x.dirs d).entrycache = _
    rw [hp.dirs d]
  · rw [hcur, storeEntry_tableWord]
    exact hword
  · intro d u
    rw [storeEntry_tableWord]
    exact hp.words d u
  · refine ⟨x.current, idx / 1024, htx.live_current, by omega, ?_, ?_⟩
    · rw [storeEntry_tableWord]
      exact hword
    · rw [storeEntry_tableWord, storeEntry_window htx hidx (by rw [hframe]; exact hF) hword hwin]
      exact hwin.symm
  · intro d hd hs
    exact (hstored d (by rw [hlive]; exact hd) idx hidx).1 ⟨rfl, (hsees d).1 hs⟩
  · intro d j hd hj hne hnot
    rw [(hstored d (by rw [hlive]; exact hd) j hj).2 fun hh => hnot ⟨hh.1, (hsees d).2 hh.2⟩]
    exact hp.stored d j hd hj hne

end Btos.Kernel.Mm2
