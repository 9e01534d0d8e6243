import Btos.Kernel.Mm2.Tables

/-!
# Reading an entry

`map_table` and `get_table_entry` on sound page tables.

* `getTableEntry_quiet` — **reading is quiet**;
* `getTableEntry_eq` — **reading returns the stored entry**, from the cache or from the table, for
  every page but the window's.
-/

namespace Btos.Kernel.Mm2

open State

/-! ### Replacing a directory, a cache -/

theorem setDir_self (s : State) (d : Pid) (x : PageDirectory) : (s.setDir d x).dirs d = x :=
  Function.update_self ..

theorem setDir_of_ne (s : State) (x : PageDirectory) (h : d' ≠ d) : (s.setDir d x).dirs d' = s.dirs d' :=
  Function.update_of_ne h ..

/-- What is the same in the new directory is the same in all. -/
theorem setDir_same {s : State} (f : PageDirectory → α) (h : f x = f (s.dirs d)) (d' : Pid) :
    f ((s.setDir d x).dirs d') = f (s.dirs d') := by
  by_cases hd : d' = d
  · subst hd
    rwa [setDir_self]
  · rw [setDir_of_ne _ _ hd]

theorem setCache_tableWord (s : State) (d : Pid) (cache : List CacheEntry) (d' : Pid) (t : ℕ) :
    (s.setCache d cache).tableWord d' t = s.tableWord d' t :=
  setDir_same (x := { s.dirs d with entrycache := cache }) (fun x => x.directory t) rfl d'

theorem Tables.setCache_quiet (ht : Tables s)
    (hc : s.live d = true → ∀ c ∈ cache, c.entry ≠ 0 → c.index ≠ 0 → Right s d c) :
    Quiet s (s.setCache d cache) where
  rest := rfl
  dirs := by
    intro d'
    by_cases hd : d' = d
    · subst hd
      simp only [setCache, setDir_self]
    · simp only [setCache, setDir_of_ne s _ hd]
  frames _ _ _ := rfl
  slot := ht.windowEntry
  shows := by
    left
    simp only [window, windowTable, setCache_tableWord]
    rfl
  cache := by
    intro d' hlive c hmem
    by_cases hd : d' = d
    · subst hd
      simp only [setCache, setDir_self] at hmem
      exact hc hlive c hmem
    · simp only [setCache, setDir_of_ne s _ hd] at hmem
      exact ht.cached d' hlive c hmem

/-! ### The window -/

theorem pointWindow_dirs (s : State) (d : Pid) (a : ℕ) (d' : Pid) : (s.pointWindow d a).dirs d' =
    { s.dirs d' with currentTable := ((s.pointWindow d a).dirs d').currentTable } := by
  unfold pointWindow
  by_cases hd : d' = d
  · subst hd
    rw [setDir_self]
  · rw [setDir_of_ne _ _ hd]
    rfl

theorem pointWindow_tableWord (s : State) (d : Pid) (a : ℕ) (d' : Pid) (t : ℕ) :
    (s.pointWindow d a).tableWord d' t = s.tableWord d' t := by
  rw [tableWord, pointWindow_dirs]
  rfl

theorem pointWindow_frames (s : State) (d : Pid) (a f j : ℕ) : (s.pointWindow d a).frames f j =
    if f = s.windowTable d ∧ j = s.tableFrame % 1024 then a ||| 3 else s.frames f j := by
  rw [← windowWord]
  rfl

theorem pointWindow_window {s : State} {d : Pid} (hw : s.windowTable d = s.windowTable s.current)
    (a : ℕ) : (s.pointWindow d (addressOf a)).window = addressOf a := by
  show addressOf ((s.pointWindow d _).frames ((s.pointWindow d _).windowTable s.current)
    (s.tableFrame % 1024)) = _
  rw [windowTable, pointWindow_tableWord, pointWindow_frames, hw]
  rw [if_pos ⟨rfl, rfl⟩, addressOf_or (addressOf_aligned _) (addressOf_lt _) (by decide)]

/-- `map_table` points the window to the page, or does nothing. -/
theorem mapTable_cases (s : State) (d : Pid) (ta : ℕ) : mapTable s d ta = (false, s) ∨
      (addressOf ta ≠ 0 ∧ present (s.tableWord d (s.tableFrame / 1024)) = true ∧
        mapTable s d ta = (true, s.pointWindow d (addressOf ta))) := by
  unfold mapTable
  split
  · exact .inl rfl
  · rename_i ha
    split
    · rename_i hp
      exact .inr ⟨ha, hp, rfl⟩
    · exact .inl rfl

theorem ne_zero_of_present (h : present e = true) : e ≠ 0 := by
  rintro rfl
  exact absurd h (by decide)

section Reading

variable {s : State} {d : Pid}

theorem mapTable_false (ha : addressOf ta = 0) : mapTable s d ta = (false, s) := by
  rw [mapTable, if_pos ha]

/-- The state of `getTableEntry` after its look into the cache. -/
def State.touched (s : State) (d : Pid) (idx : ℕ) : State :=
  s.setCache d (entrycacheGet (s.dirs d).entrycache idx).2

theorem Tables.touched_quiet (ht : Tables s) (d : Pid) (idx : ℕ) : Quiet s (s.touched d idx) := by
  refine ht.setCache_quiet ?_
  intro hd c hmem he h0
  obtain ⟨c0, hmem0, hi, hen⟩ := mem_entrycacheGet hmem
  have hr := ht.cached d hd c0 hmem0 (hen ▸ he) (hi ▸ h0)
  simpa only [Right, hi, hen] using hr

theorem getTableEntry_miss (h : (entrycacheGet (s.dirs d).entrycache idx).1 = 0) : getTableEntry s d idx =
      let r := mapTable (s.touched d idx) d ((s.touched d idx).tableWord d (idx / 1024))
      let ret := if r.1 then r.2.frames r.2.window (idx % 1024) else 0
      (ret, r.2.setCache d (entrycacheSet (r.2.dirs d).entrycache idx ret)) := by
  simp only [getTableEntry, h, touched]
  rfl

theorem getTableEntry_hit (h : (entrycacheGet (s.dirs d).entrycache idx).1 ≠ 0) :
    getTableEntry s d idx = ((entrycacheGet (s.dirs d).entrycache idx).1, s.touched d idx) := by
  simp only [getTableEntry, if_pos h, touched]

/-- What is read through the window: word `idx % 1024` of the table, or 0 without a table. -/
def readTable (s : State) (d : Pid) (idx : ℕ) : ℕ :=
  let r := mapTable s d (s.tableWord d (idx / 1024))
  if r.1 then r.2.frames r.2.window (idx % 1024) else 0

theorem readTable_no_window (hw : s.tableWord d (s.tableFrame / 1024) = 0) : readTable s d idx = 0 := by
  have hfalse : (mapTable s d (s.tableWord d (idx / 1024))).1 = false := by
    unfold mapTable
    split
    · rfl
    · rw [hw, if_neg (by decide)]
  simp only [readTable, hfalse, Bool.false_eq_true, if_false]

variable (ht : Tables s) (hd : s.live d = true)
include ht hd

theorem Tables.pointWindow_quiet (hw : s.tableWord d (s.tableFrame / 1024) ≠ 0) {a : ℕ} (ha : IsTable s (addressOf a)) :
    Quiet s (s.pointWindow d (addressOf a)) := by
  have hwt := ht.windowTable_eq hd hw
  refine ⟨rfl, ?_, ?_, ?_, ?_, ?_⟩
  · intro d'
    rw [pointWindow_dirs]
  · intro f j hne
    rw [pointWindow_frames, hwt, if_neg hne]
  · rw [pointWindow_frames, hwt, if_pos ⟨rfl, rfl⟩, present_or (addressOf_aligned _) (by decide)]
    rfl
  · right
    rw [pointWindow_window hwt]
    exact ha
  · intro d' hlive c hmem
    rw [pointWindow_dirs] at hmem
    exact ht.cached d' hlive c hmem

theorem Tables.mapTable_quiet
    (hta : addressOf ta ≠ 0 → IsTable s (addressOf ta)) : Quiet s (mapTable s d ta).2 := by
  rcases mapTable_cases s d ta with h | ⟨ha, hp, h⟩
  · rw [h]
    exact ht.quiet_refl
  · rw [h]
    exact ht.pointWindow_quiet hd (ne_zero_of_present hp) (hta ha)

theorem Tables.mapTable_word_quiet (htlt : t < 1024) : Quiet s (mapTable s d (s.tableWord d t)).2 := by
  exact ht.mapTable_quiet hd fun ha => ⟨d, t, hd, htlt, ne_zero_of_address ha, rfl⟩

section

variable (hw : s.tableWord d (s.tableFrame / 1024) ≠ 0)
include hw

theorem Tables.mapTable_window {ta : ℕ} (ha : addressOf ta ≠ 0) :
    (mapTable s d ta).1 = true ∧ (mapTable s d ta).2.window = addressOf ta := by
  have hpres := (ht.words d _ hd (Nat.lt_trans ht.windowIndex_lt (by decide)) hw).1
  rw [mapTable, if_neg ha, if_pos hpres]
  exact ⟨rfl, pointWindow_window (ht.windowTable_eq hd hw) ta⟩

theorem Tables.readTable_of_word (hidx : idx < 2 ^ 20) (hword : s.tableWord d (idx / 1024) ≠ 0) :
    readTable s d idx = (mapTable s d (s.tableWord d (idx / 1024))).2.frames
      (addressOf (s.tableWord d (idx / 1024))) (idx % 1024) := by
  have ha := (ht.words d _ hd (by omega) hword).2
  obtain ⟨htrue, hwin⟩ := ht.mapTable_window hd hw ha
  simp only [readTable, htrue, if_true, hwin]

theorem Tables.readTable_eq (hidx : idx < 2 ^ 20)
    (hne : idx ≠ s.tableFrame) : readTable s d idx = storedEntry s d idx := by
  by_cases hword : s.tableWord d (idx / 1024) = 0
  · rw [stored_of_no_word hword, readTable, hword]
    rfl
  · rw [ht.readTable_of_word hd hw hidx hword, ht.stored_of_word hd hidx hword]
    exact (ht.mapTable_word_quiet hd (by omega)).frames _ _ (ht.slot_ne hd hidx hne hword)

theorem Tables.readTable_window : present (readTable s d s.tableFrame) = true := by
  have hlt : s.tableFrame < 2 ^ 20 := Nat.lt_trans ht.frame_lt (by decide)
  rw [ht.readTable_of_word hd hw hlt hw]
  have hslot := (ht.mapTable_word_quiet hd (t := s.tableFrame / 1024) (by omega)).slot
  rwa [← ht.windowTable_eq hd hw] at hslot

end

theorem Tables.readTable_right
    (hidx : idx < 2 ^ 20) (h0 : readTable s d idx ≠ 0) : Right s d ⟨idx, readTable s d idx, 0⟩ := by
  have hw : s.tableWord d (s.tableFrame / 1024) ≠ 0 := by
    intro hw
    exact h0 (readTable_no_window hw)
  by_cases hne : idx = s.tableFrame
  · subst hne
    exact .inl ⟨rfl, ht.readTable_window hd hw⟩
  · exact .inr ⟨hne, hidx, ht.readTable_eq hd hw hidx hne⟩

/-- **Reading an entry is quiet.** -/
theorem Tables.getTableEntry_quiet (hidx : idx < 2 ^ 20) : Quiet s (getTableEntry s d idx).2 := by
  have q1 := ht.touched_quiet d idx
  by_cases hhit : (entrycacheGet (s.dirs d).entrycache idx).1 = 0
  · rw [getTableEntry_miss hhit]
    have ht1 := ht.quiet q1
    have hd1 : (s.touched d idx).live d = true := hd
    have q2 := ht1.mapTable_word_quiet hd1 (t := idx / 1024) (by omega)
    refine q1.trans ht (q2.trans ht1 ((ht1.quiet q2).setCache_quiet ?_))
    intro _ c hmem he h0
    rcases mem_entrycacheSet hmem with hold | ⟨hne, rfl⟩
    · exact (ht1.quiet q2).cached d (by rw [q2.live]; exact hd1) c hold he h0
    · exact (q2.intact.right ht1 hd1).2 (ht1.readTable_right hd1 hidx hne)
  · rw [getTableEntry_hit hhit]
    exact q1

/-- **Reading an entry gives the stored one.** -/
theorem Tables.getTableEntry_eq (hw : s.tableWord d (s.tableFrame / 1024) ≠ 0) (hidx : idx < 2 ^ 20)
    (hne : idx ≠ s.tableFrame) : (getTableEntry s d idx).1 = storedEntry s d idx := by
  by_cases hhit : (entrycacheGet (s.dirs d).entrycache idx).1 = 0
  · rw [getTableEntry_miss hhit]
    have q1 := ht.touched_quiet d idx
    have hread : readTable (s.touched d idx) d idx = storedEntry (s.touched d idx) d idx :=
      (ht.quiet q1).readTable_eq hd
        (by rw [q1.tableWord]; exact hw) hidx hne
    rw [q1.stored ht hd hidx hne] at hread
    exact hread
  · rw [getTableEntry_hit hhit]
    obtain ⟨h0, c, hmem, rfl, hen⟩ := entrycacheGet_hit hhit
    rcases ht.cached d hd c hmem (hen ▸ hhit) h0 with ⟨hF, -⟩ | ⟨-, -, heq⟩
    · exact absurd hF hne
    · exact hen ▸ heq

theorem Tables.getTableEntry_window (hw : s.tableWord d (s.tableFrame / 1024) ≠ 0) :
    present (getTableEntry s d s.tableFrame).1 = true := by
  by_cases hhit : (entrycacheGet (s.dirs d).entrycache s.tableFrame).1 = 0
  · rw [getTableEntry_miss hhit]
    have q1 := ht.touched_quiet d s.tableFrame
    have hread := (ht.quiet q1).readTable_window hd
      (by rw [q1.tableWord]; exact hw)
    exact hread
  · rw [getTableEntry_hit hhit]
    obtain ⟨h0, c, hmem, hi, hen⟩ := entrycacheGet_hit hhit
    rcases ht.cached d hd c hmem (hen ▸ hhit) (hi ▸ h0) with ⟨-, hp⟩ | ⟨hF, -⟩
    · exact hen ▸ hp
    · exact absurd hi hF

end Reading

end Btos.Kernel.Mm2
