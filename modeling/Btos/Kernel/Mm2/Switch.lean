import Btos.Kernel.Mm2.Alloc

/-!
# Switching and creating directories

`mm2_switch` copies the words of the kernel half to the kernel's directory and from there to the new one.  The
register of the processor is `current`; its cache of translations is left out.

* `mm2Switch_spread`, `Spread.tables` — **sound tables stay sound when the directory is switched**:
  what a directory remembers of the kernel half it has read from a table that it shares.
-/

namespace Btos.Kernel.Mm2

open Lib.Word Lib.Loop

/-! ### Switching -/

/-- `s'` is `s` with another current directory, and words of the kernel half copied from the current
directory of `s`. -/
structure Spread (s s' : State) : Prop where
  rest : s' = { s with dirs := s'.dirs, current := s'.current }
  dirs : ∀ d, s'.dirs d = { s.dirs d with
    directory := (s'.dirs d).directory, klowfree := (s'.dirs d).klowfree }
  live_current : s.live s'.current = true
  copied : ∀ t, t < kernelTables → s'.tableWord s'.current t = s.tableWord s.current t
  words : ∀ d t, s'.tableWord d t = s.tableWord d t ∨
    (t < kernelTables ∧ s'.tableWord d t = s.tableWord s.current t)

namespace Spread

variable {s s' : State}

section

variable (h : Spread s s')
include h

theorem frames : s'.frames = s.frames := by rw [h.rest]

theorem physical : s'.physical = s.physical := by rw [h.rest]

theorem live : s'.live = s.live := by rw [h.rest]

theorem tableFrame : s'.tableFrame = s.tableFrame := by rw [h.rest]

theorem entrycache (d : Pid) : (s'.dirs d).entrycache = (s.dirs d).entrycache := by rw [h.dirs d]

theorem regions (d : Pid) : (s'.dirs d).regions = (s.dirs d).regions := by
  rw [h.dirs d]

/-- A table word after the switch is one from before, of the same directory or of the current one. -/
theorem sourced (ht : Tables s) : Sourced s s' where
  tableFrame := h.tableFrame
  live_current := by rw [h.live]; exact h.live_current
  copied := h.copied
  word {d t} hd _ := by
    rcases h.words d t with hw | ⟨hk, hw⟩
    · exact ⟨d, h.live ▸ hd, hw, .inl rfl⟩
    · exact ⟨s.current, ht.live_current, hw, .inr hk⟩

theorem word_eq (ht : Tables s) (hd : s.live d = true)
    (hw : s.tableWord d t ≠ 0) : s'.tableWord d t = s.tableWord d t := by
  rcases h.words d t with heq | ⟨hk, heq⟩
  · exact heq
  · rw [heq, ht.shared d t hd hk hw]

theorem stored_of_word_eq (hw : s'.tableWord d (idx / 1024) = s.tableWord e (idx / 1024)) :
    storedEntry s' d idx = storedEntry s e idx := by
  rw [storedEntry, storedEntry, hw, h.frames]

/-- An entry after the switch is one from before, of the same directory or of the current one. -/
theorem stored_source (ht : Tables s) (hd : s.live d = true) (idx : ℕ) :
    ∃ e, s.live e = true ∧ storedEntry s' d idx = storedEntry s e idx ∧
      (e = d ∨ idx / 1024 < kernelTables) := by
  rcases h.words d (idx / 1024) with hw | ⟨hk, hw⟩
  · exact ⟨d, hd, h.stored_of_word_eq hw, .inl rfl⟩
  · exact ⟨s.current, ht.live_current, h.stored_of_word_eq hw, .inr hk⟩

theorem stored_user (d : Pid) (hu : kernelPages ≤ idx) : storedEntry s' d idx = storedEntry s d idx := by
  refine h.stored_of_word_eq ((h.words d _).resolve_right fun hk => ?_)
  exact absurd hu (Nat.not_le.2 (kernel_table_iff.1 hk.1))

theorem window (ht : Tables s) : s'.window = s.window := by
  rw [State.window, State.window, (h.sourced ht).windowTable ht, h.frames, h.tableFrame]

theorem isTable (ht : Tables s) : IsTable s' f ↔ IsTable s f := by
  refine ⟨(h.sourced ht).isTable, ?_⟩
  rintro ⟨d, t, hd, htlt, hw, rfl⟩
  refine ⟨d, t, by rw [h.live]; exact hd, htlt, ?_, ?_⟩ <;> rw [h.word_eq ht hd hw]
  exact hw

/-- **Sound tables stay sound.** -/
theorem tables (ht : Tables s) : Tables s' := by
  refine (h.sourced ht).tables ht (fun g _ hg => h.physical ▸ hg) ?_ (by rw [h.frames]; exact ht.windowEntry) ?_ ?_
  · intro d idx hd hidx hne
    obtain ⟨e, he, heq, -⟩ := h.stored_source ht (h.live ▸ hd) idx
    rw [heq]
    exact ht.entries e idx he hidx hne
  · intro d hd c hc he h0
    rw [h.live] at hd
    rw [h.entrycache] at hc
    rcases ht.cached d hd c hc he h0 with ⟨hF, hp⟩ | ⟨hF, hlt, heq⟩
    · exact .inl ⟨by rw [h.tableFrame]; exact hF, hp⟩
    · refine .inr ⟨by rw [h.tableFrame]; exact hF, hlt, ?_⟩
      -- an entry that is not 0 was read from a table, and the directory still has that table
      rw [h.stored_of_word_eq (h.word_eq ht hd (word_of_stored (heq ▸ he)))]
      exact heq
  · rw [h.stored_of_word_eq (h.copied _ (by decide))]
    exact ht.null

end

end Spread

theorem copyKernelspace_tableWord (s : State) (dst src d : Pid) (t : ℕ) :
    (copyKernelspace s dst src).tableWord d t =
      if d = dst ∧ t < kernelTables then s.tableWord src t else s.tableWord d t := by
  by_cases hd : d = dst
  · subst hd
    simp only [State.tableWord, copyKernelspace, setDir_self, true_and]
  · simp only [State.tableWord, copyKernelspace, setDir_of_ne _ _ hd, hd, false_and, if_false]

theorem copyKernelspace_dirs (s : State) (dst src d : Pid) : (copyKernelspace s dst src).dirs d =
    { s.dirs d with directory := ((copyKernelspace s dst src).dirs d).directory
                    klowfree := ((copyKernelspace s dst src).dirs d).klowfree } := by
  unfold copyKernelspace
  by_cases hd : d = dst
  · subst hd
    rw [setDir_self]
  · rw [setDir_of_ne _ _ hd]

/-- **`mm2_switch`.** -/
theorem mm2Switch_spread (ht : Tables s) (hnew : s.live newdir = true) : Spread s (mm2Switch s newdir) := by
  unfold mm2Switch
  split
  · exact ⟨rfl, fun _ => rfl, ht.live_current, fun _ _ => rfl, fun _ _ => .inl rfl⟩
  · have hword : ∀ d t, (copyKernelspace (copyKernelspace s kernelPid s.current) newdir
        kernelPid).tableWord d t =
          if (d = newdir ∨ d = kernelPid) ∧ t < kernelTables then s.tableWord s.current t
          else s.tableWord d t := by
      intro d t
      simp only [copyKernelspace_tableWord]
      by_cases hk : t < kernelTables
      · by_cases h1 : d = newdir <;> by_cases h2 : d = kernelPid <;> simp [hk, h1, h2]
      · simp [hk]
    refine ⟨rfl, ?_, hnew, ?_, ?_⟩
    · intro d
      show (copyKernelspace _ newdir kernelPid).dirs d = _
      rw [copyKernelspace_dirs, copyKernelspace_dirs]
    · intro t hk
      refine (hword newdir t).trans ?_
      rw [if_pos ⟨.inl rfl, hk⟩]
    · intro d t
      by_cases hcase : (d = newdir ∨ d = kernelPid) ∧ t < kernelTables
      · exact .inr ⟨hcase.2, (hword d t).trans (if_pos hcase)⟩
      · exact .inl ((hword d t).trans (if_neg hcase))

theorem mm2Switch_current (s : State) (newdir : Pid) : (mm2Switch s newdir).current = newdir := by
  unfold mm2Switch
  split
  · rename_i h
    exact h.symm
  · rfl

/-! ### A new directory -/

theorem addDirectory_dirs (s : State) (x : PageDirectory) (hne : d ≠ pid) :
    (addDirectory s pid x).dirs d = s.dirs d := setDir_of_ne s x hne

theorem addDirectory_live (hd : (addDirectory s pid x).live d = true) (hne : d ≠ pid) : s.live d = true := by
  have hd' : Function.update s.live pid true d = true := hd
  rwa [Function.update_of_ne hne] at hd'

theorem addDirectory_stored (s : State) (x : PageDirectory) (hne : d ≠ pid) (idx : ℕ) :
    storedEntry (addDirectory s pid x) d idx = storedEntry s d idx := by
  rw [storedEntry, State.tableWord, addDirectory_dirs s x hne]
  rfl

section

variable (ht : Tables s) (hpid : s.live pid = false)
include ht hpid

theorem addDirectory_current : s.current ≠ pid := by
  rintro rfl
  rw [ht.live_current] at hpid
  cases hpid

theorem addDirectory_sourced (hdir : ∀ t, x.directory t = 0) :
    Sourced s (addDirectory s pid x) where
  tableFrame := rfl
  live_current := (Function.update_of_ne (addDirectory_current ht hpid) _ _).trans ht.live_current
  copied t _ := by
    show (addDirectory s pid x).tableWord s.current t = _
    rw [State.tableWord, addDirectory_dirs s x (addDirectory_current ht hpid)]
    rfl
  word {d t} hd hw := by
    -- a directory with a table is an old one
    have hne : d ≠ pid := by
      rintro rfl
      refine hw ?_
      show ((s.setDir d x).dirs d).directory t = 0
      rw [setDir_self]
      exact hdir t
    refine ⟨d, addDirectory_live hd hne, ?_, .inl rfl⟩
    rw [State.tableWord, addDirectory_dirs s x hne]
    rfl

/-- **A new directory keeps the tables sound**: it has none, and its cache holds no entry. -/
theorem addDirectory_tables (hdir : ∀ t, x.directory t = 0)
    (hcache : ∀ c ∈ x.entrycache, c.entry = 0) : Tables (addDirectory s pid x) := by
  refine (addDirectory_sourced ht hpid hdir).tables ht (fun _ _ => id) ?_ ht.windowEntry ?_ ?_
  · intro d idx hd hidx hF
    by_cases hne : d = pid
    · subst hne
      left
      refine stored_of_no_word ?_
      show ((s.setDir d x).dirs d).directory _ = 0
      rw [setDir_self]
      exact hdir _
    · rw [addDirectory_stored s x hne]
      exact ht.entries d idx (addDirectory_live hd hne) hidx hF
  · intro d hd c hc he h0
    by_cases hne : d = pid
    · subst hne
      have hc' : c ∈ ((s.setDir d x).dirs d).entrycache := hc
      rw [setDir_self] at hc'
      exact absurd (hcache c hc') he
    · rw [addDirectory_dirs s x hne] at hc
      refine (ht.cached d (addDirectory_live hd hne) c hc he h0).imp_right fun ⟨hF, hlt, heq⟩ => ⟨hF, hlt, ?_⟩
      rw [addDirectory_stored s x hne]
      exact heq
  · show storedEntry (addDirectory s pid x) s.current 0 ≠ 0
    rw [addDirectory_stored s x (addDirectory_current ht hpid)]
    exact ht.null

end

end Btos.Kernel.Mm2
