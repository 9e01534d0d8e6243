import Btos.Kernel.Mm2.Faults

/-!
# Operations on user pages leave the kernel half alone

What protects the page tables of the kernel half is that no entry of user space maps one of them and
that none of them is `Free`; of the kernel half the caches may hold what they like.

* `getTableEntry_untouched`, `setTableEntry_untouched`, … — **the operations on pages of user space
  leave it untouched**, one lemma for each function of the directory.
-/

namespace Btos.Kernel.Mm2

open Lib.Word Lib.Loop Lib.Lists

/-- The page at `f` is a page table of the kernel half. -/
def KernelTable (s : State) (f : ℕ) : Prop :=
  ∃ t, t < kernelTables ∧ s.tableWord s.current t ≠ 0 ∧ addressOf (s.tableWord s.current t) = f

/-- An entry that does not map a page table of the kernel half. -/
def Harmless (s : State) (e : ℕ) : Prop := present e = true → ¬KernelTable s (addressOf e)

theorem harmless_zero (s : State) : Harmless s 0 := fun h => absurd h (by decide)

/-- The tables of the kernel half are out of reach of user space. -/
structure KernelSafe (s : State) : Prop where
  frame_pos : 0 < s.tableFrame
  frame_lt : s.tableFrame < kernelPages
  live_current : s.live s.current = true
  usable : Usable s
  windowOnly : ∀ t, t < kernelTables → s.tableWord s.current t ≠ 0 →
    addressOf (s.tableWord s.current t) = s.windowTable s.current → t = s.tableFrame / 1024
  shared : ∀ d t, s.live d = true → t < kernelTables → s.tableWord d t ≠ 0 →
    s.tableWord d t = s.tableWord s.current t
  inUse : ∀ f, KernelTable s f → ¬IsFree s.physical f
  tables : ∀ t, kernelTables ≤ t → t < 1024 → s.tableWord s.current t ≠ 0 →
    addressOf (s.tableWord s.current t) ≠ 0 ∧ ¬KernelTable s (addressOf (s.tableWord s.current t))
  entries : ∀ idx, kernelPages ≤ idx → idx < 2 ^ 20 → Harmless s (storedEntry s s.current idx)
  cached : ∀ c ∈ (s.dirs s.current).entrycache, kernelPages ≤ c.index → Harmless s c.entry
  spaces : ∀ p ∈ s.spaces, ∀ q ∈ p.2.pages, (q.2 % 4096 = 0 ∧ q.2 < 2 ^ 32) ∧ ¬KernelTable s q.2

theorem KernelSafe.windowIndex_lt (h : KernelSafe s) : s.tableFrame / 1024 < kernelTables :=
  kernel_table_iff.2 h.frame_lt

theorem KernelSafe.windowTable (h : KernelSafe s) : KernelTable s (s.windowTable s.current) :=
  ⟨s.tableFrame / 1024, h.windowIndex_lt, ne_zero_of_present h.usable.isPresent, rfl⟩

theorem kernelTable_iff (hcur : s'.current = s.current)
    (hwords : ∀ d t, d ≠ s.current ∨ t < kernelTables → s'.tableWord d t = s.tableWord d t) (f : ℕ) :
    KernelTable s' f ↔ KernelTable s f := by
  unfold KernelTable
  rw [hcur]
  refine exists_congr fun t => and_congr_right fun ht => ?_
  rw [hwords _ t (.inr ht)]

/-- The same kernel half, still out of reach. -/
structure Untouched (s s' : State) : Prop extends Stays s s' where
  safe : KernelSafe s'
  schedulerReady : s'.schedulerReady = s.schedulerReady
  regions : (s'.dirs s.current).regions = (s.dirs s.current).regions
  words : ∀ d t, d ≠ s.current ∨ t < kernelTables → s'.tableWord d t = s.tableWord d t
  frames : ∀ f j, KernelTable s f → ¬(f = s.windowTable s.current ∧ j = s.tableFrame % 1024) →
    s'.frames f j = s.frames f j

namespace Untouched

variable {s s' s'' : State}

section

variable (h : Untouched s s')
include h

theorem kernelTable (f : ℕ) : KernelTable s' f ↔ KernelTable s f :=
  kernelTable_iff h.current h.words f

theorem harmless (e : ℕ) : Harmless s' e ↔ Harmless s e := by
  rw [Harmless, Harmless, h.kernelTable]

theorem windowTable (hs : KernelSafe s) :
    s'.windowTable s.current = s.windowTable s.current := by
  rw [State.windowTable, State.windowTable, h.tableFrame, h.words _ _ (.inr hs.windowIndex_lt)]

theorem trans (hs : KernelSafe s) (h' : Untouched s' s'') : Untouched s s'' where
  safe := h'.safe
  toStays := h.toStays.trans h'.toStays
  schedulerReady := h'.schedulerReady.trans h.schedulerReady
  regions := by
    have := h'.regions
    rw [h.current] at this
    exact this.trans h.regions
  words d t hdt := by
    have := h'.words d t
    rw [h.current] at this
    exact (this hdt).trans (h.words d t hdt)
  frames f j hf hslot := by
    have := h'.frames f j ((h.kernelTable f).2 hf)
    rw [h.current, h.windowTable hs, h.tableFrame] at this
    exact (this hslot).trans (h.frames f j hf hslot)

/-- **The entries of the kernel half are the same** in every directory, up to the window's. -/
theorem stored (hs : KernelSafe s) (hd : s.live d = true)
    (hidx : idx < kernelPages) (hne : idx ≠ s.tableFrame) : storedEntry s' d idx = storedEntry s d idx := by
  have ht := kernel_table_iff.2 hidx
  refine stored_congr (h.words d _ (.inr ht)) fun h0 => ?_
  have hcur := hs.shared d _ hd ht h0
  rw [hcur] at h0 ⊢
  refine h.frames _ _ ⟨_, ht, h0, rfl⟩ ?_
  rintro ⟨hf, hj⟩
  have := hs.windowOnly _ ht h0 hf
  omega

end

end Untouched

/-! ### Steps -/

section

variable {s s' : State} (hs : KernelSafe s) (hstays : Stays s s') (hready : s'.schedulerReady = s.schedulerReady)
  (hreg : (s'.dirs s.current).regions = (s.dirs s.current).regions)
  (hfree : ∀ f, KernelTable s f → ¬IsFree s'.physical f)
  (hcached : ∀ c ∈ (s'.dirs s.current).entrycache, kernelPages ≤ c.index → Harmless s c.entry)
  (hspaces : ∀ p ∈ s'.spaces, ∀ q ∈ p.2.pages, (q.2 % 4096 = 0 ∧ q.2 < 2 ^ 32) ∧ ¬KernelTable s q.2)
include hs hstays hready hreg hfree hcached hspaces

theorem KernelSafe.change
    (hwords : ∀ d t, d ≠ s.current ∨ t < kernelTables → s'.tableWord d t = s.tableWord d t)
    (hframes : ∀ f j, KernelTable s f →
      ¬(f = s.windowTable s.current ∧ j = s.tableFrame % 1024) → s'.frames f j = s.frames f j)
    (htables : ∀ t, kernelTables ≤ t → t < 1024 → s'.tableWord s.current t ≠ 0 →
      addressOf (s'.tableWord s.current t) ≠ 0 ∧ ¬KernelTable s (addressOf (s'.tableWord s.current t)))
    (hentries : ∀ idx, kernelPages ≤ idx → idx < 2 ^ 20 →
      Harmless s (storedEntry s' s.current idx)) : Untouched s s' := by
  obtain ⟨hlive, hcur, hF⟩ := hstays
  have hkt := kernelTable_iff hcur hwords
  have hwt : s'.windowTable s.current = s.windowTable s.current := by
    rw [State.windowTable, State.windowTable, hF, hwords _ _ (.inr hs.windowIndex_lt)]
  refine ⟨⟨hlive, hcur, hF⟩, ⟨?_, ?_, ?_, ⟨?_, ?_⟩, ?_, ?_, ?_, ?_, ?_, ?_, ?_⟩, hready, hreg, hwords, hframes⟩
  · rw [hF]
    exact hs.frame_pos
  · rw [hF]
    exact hs.frame_lt
  · rw [hlive, hcur]
    exact hs.live_current
  · rw [hcur, hF, hwords _ _ (.inr hs.windowIndex_lt)]
    exact hs.usable.isPresent
  · rw [hcur, hwt]
    exact hfree _ hs.windowTable
  · intro t ht
    rw [hcur, hwt, hF, hwords _ t (.inr ht)]
    exact hs.windowOnly t ht
  · intro d t
    rw [hlive, hcur]
    intro hd ht
    rw [hwords _ t (.inr ht), hwords _ t (.inr ht)]
    exact hs.shared d t hd ht
  · intro f hf
    exact hfree f ((hkt f).1 hf)
  · intro t hk ht
    rw [hcur, hkt]
    exact htables t hk ht
  · intro idx hu hidx hp
    rw [hcur] at hp ⊢
    rw [hkt]
    exact hentries idx hu hidx hp
  · intro c hc hu hp
    rw [hcur] at hc
    rw [hkt]
    exact hcached c hc hu hp
  · intro p hp q hq
    rw [hkt]
    exact hspaces p hp q hq

/-- Changes that are none for the tables: to the physical pages, to the cache, to the spaces. -/
theorem KernelSafe.aside (hframes : s'.frames = s.frames)
    (hdir : ∀ d, (s'.dirs d).directory = (s.dirs d).directory) : Untouched s s' := by
  have hword : ∀ d t, s'.tableWord d t = s.tableWord d t := fun d => congrFun (hdir d)
  have hstored : ∀ idx, storedEntry s' s.current idx = storedEntry s s.current idx := by
    intro idx
    rw [storedEntry, storedEntry, hword, hframes]
  refine hs.change hstays hready hreg hfree hcached hspaces (fun d t _ => hword d t)
    (fun f j _ _ => by rw [hframes]) ?_ ?_
  · intro t hk ht
    rw [hword]
    exact hs.tables t hk ht
  · intro idx hu hidx
    rw [hstored]
    exact hs.entries idx hu hidx

end

section Steps

variable {s s' : State}

theorem KernelSafe.refl (hs : KernelSafe s) : Untouched s s :=
  hs.aside ⟨rfl, rfl, rfl⟩ rfl rfl hs.inUse hs.cached hs.spaces rfl fun _ => rfl

theorem KernelSafe.setCache (hs : KernelSafe s) (hc : ∀ c ∈ cache, kernelPages ≤ c.index → Harmless s c.entry) :
    Untouched s (s.setCache s.current cache) := by
  unfold State.setCache
  refine hs.aside ⟨rfl, rfl, rfl⟩ rfl ?_ hs.inUse ?_ hs.spaces rfl (setDir_same PageDirectory.directory rfl)
  · rw [setDir_self]
  · rw [setDir_self]
    exact hc

theorem KernelSafe.physical (hs : KernelSafe s)
    (h : ∀ f, KernelTable s f → ¬IsFree ph f) : Untouched s { s with physical := ph } :=
  hs.aside ⟨rfl, rfl, rfl⟩ rfl rfl h hs.cached hs.spaces rfl fun _ => rfl

theorem KernelSafe.user_ne_windowTable (hs : KernelSafe s) (hk : kernelTables ≤ t)
    (ht : t < 1024) (hw : s.tableWord s.current t ≠ 0) :
    addressOf (s.tableWord s.current t) ≠ s.windowTable s.current := by
  intro heq
  refine (hs.tables t hk ht hw).2 ?_
  rw [heq]
  exact hs.windowTable

theorem table_of_user (hu : kernelPages ≤ idx) (hidx : idx < 2 ^ 20) :
    kernelTables ≤ idx / 1024 ∧ idx / 1024 < 1024 := by
  simp only [kernelPages, kernelTables] at *
  omega

/-- The entry of a user page is harmless where its word has become 0 or is as before. -/
theorem KernelSafe.harmless_entry (hs : KernelSafe s) (hu : kernelPages ≤ idx) (hidx : idx < 2 ^ 20)
    (hword : s'.tableWord s.current (idx / 1024) = s.tableWord s.current (idx / 1024))
    (hframe : s.tableWord s.current (idx / 1024) ≠ 0 →
      s'.frames (addressOf (s.tableWord s.current (idx / 1024))) (idx % 1024) = 0 ∨
      s'.frames (addressOf (s.tableWord s.current (idx / 1024))) (idx % 1024) =
        s.frames (addressOf (s.tableWord s.current (idx / 1024))) (idx % 1024)) :
    Harmless s (storedEntry s' s.current idx) := by
  by_cases hw : s.tableWord s.current (idx / 1024) = 0
  · rw [stored_of_no_word (hword.trans hw)]
    exact harmless_zero s
  · rcases hframe hw with h0 | heq
    · rw [storedEntry, hword, h0, ite_self]
      exact harmless_zero s
    · rw [stored_congr hword fun _ => heq]
      exact hs.entries idx hu hidx

theorem KernelSafe.shown (hs : KernelSafe s) (h : Shown s s') : Untouched s s' := by
  have hdirs := h.dirs s.current
  refine hs.change ⟨by rw [h.rest], by rw [h.rest], by rw [h.rest]⟩ (by rw [h.rest])
    (by rw [hdirs]) (by rw [h.rest]; exact hs.inUse) ?_ (by rw [h.rest]; exact hs.spaces)
    (fun d t _ => h.tableWord d t) (fun f j _ hslot => h.frames f j hslot) ?_ ?_
  · rw [hdirs]
    exact hs.cached
  · intro t hk ht
    rw [h.tableWord]
    exact hs.tables t hk ht
  · intro idx hu hidx
    have htab := table_of_user hu hidx
    exact hs.harmless_entry hu hidx (h.tableWord _ _) fun hw =>
      .inr (h.frames _ _ fun hh => hs.user_ne_windowTable htab.1 htab.2 hw hh.1)

theorem KernelSafe.mapTable (hs : KernelSafe s) (ta : ℕ) : Untouched s (Mm2.mapTable s s.current ta).2 :=
  hs.shown (mapTable_shown rfl ta)

theorem KernelSafe.zeroFrame (hs : KernelSafe s) (hf : ¬KernelTable s f) : Untouched s (s.zeroFrame f) := by
  refine hs.change ⟨rfl, rfl, rfl⟩ rfl rfl hs.inUse hs.cached hs.spaces (fun _ _ _ => rfl) ?_ hs.tables ?_
  · intro g j hg _
    exact if_neg fun heq : g = f => hf (heq ▸ hg)
  · intro idx hu hidx
    refine hs.harmless_entry hu hidx rfl fun _ => ?_
    show (if _ = f then 0 else _) = 0 ∨ (if _ = f then 0 else _) = _
    split
    · exact .inl rfl
    · exact .inr rfl

end Steps

/-! ### Reading and writing entries -/

section

variable {s s' : State} {idx e : ℕ}

section

variable (hs : KernelSafe s)
include hs

theorem KernelSafe.mapTable_window (ha : addressOf ta ≠ 0) :
    (Mm2.mapTable s s.current ta).1 = true ∧ (Mm2.mapTable s s.current ta).2.window = addressOf ta := by
  rw [Mm2.mapTable, if_neg ha, if_pos hs.usable.isPresent]
  exact ⟨rfl, pointWindow_window rfl ta⟩

/-- What is read through the window for a page other than the window's is what is stored. -/
theorem KernelSafe.readTable_eq (hidx : idx < 2 ^ 20)
    (hne : idx ≠ s.tableFrame) : readTable s s.current idx = storedEntry s s.current idx := by
  by_cases ha : addressOf (s.tableWord s.current (idx / 1024)) = 0
  · rw [readTable, mapTable_false ha, storedEntry, if_pos ha]
    rfl
  · obtain ⟨htrue, hwin⟩ := hs.mapTable_window ha
    have hw := ne_zero_of_address ha
    simp only [readTable, htrue, if_true, hwin]
    rw [storedEntry, if_neg ha]
    refine (mapTable_shown rfl _).frames _ _ ?_
    rintro ⟨hf, hj⟩
    by_cases hk : idx / 1024 < kernelTables
    · have := hs.windowOnly _ hk hw hf
      omega
    · exact hs.user_ne_windowTable (Nat.not_lt.1 hk) (by omega) hw hf

/-- **Reading the entry of a page** of user space, or of page 0, which is not cached. -/
theorem getTableEntry_untouched (hidx : idx < 2 ^ 20)
    (hu : kernelPages ≤ idx ∨ idx = 0) : Untouched s (getTableEntry s s.current idx).2 ∧
      (kernelPages ≤ idx → Harmless s (getTableEntry s s.current idx).1) ∧
      (idx = 0 → (getTableEntry s s.current idx).1 = storedEntry s s.current 0) := by
  have hF : idx ≠ s.tableFrame := by
    have := hs.frame_lt
    have := hs.frame_pos
    omega
  have htouch : Untouched s (s.touched s.current idx) := by
    refine hs.setCache fun c hc hi => ?_
    obtain ⟨c0, hmem, hindex, hentry⟩ := mem_entrycacheGet hc
    rw [← hentry]
    exact hs.cached c0 hmem (by rw [hindex]; exact hi)
  by_cases hhit : (entrycacheGet (s.dirs s.current).entrycache idx).1 = 0
  · rw [getTableEntry_miss hhit]
    have hcur : s.current = (s.touched s.current idx).current := rfl
    have hstored : storedEntry (s.touched s.current idx) s.current idx = storedEntry s s.current idx := by
      simp only [storedEntry, State.touched, setCache_tableWord]
      rfl
    have hread := htouch.safe.readTable_eq hidx hF
    rw [← hcur, hstored] at hread
    have hmap := htouch.trans hs (htouch.safe.mapTable
      ((s.touched s.current idx).tableWord s.current (idx / 1024)))
    rw [← hcur] at hmap
    simp only [readTable] at hread
    simp only [hread]
    generalize (mapTable (s.touched s.current idx) s.current
      ((s.touched s.current idx).tableWord s.current (idx / 1024))).2 = x at hmap
    have hval : kernelPages ≤ idx → Harmless s (storedEntry s s.current idx) :=
      fun hk => hs.entries idx hk hidx
    refine ⟨?_, hval, fun h0 => by rw [h0]⟩
    have hset : Untouched x (x.setCache x.current (entrycacheSet (x.dirs x.current).entrycache idx
        (storedEntry s s.current idx))) := by
      refine hmap.safe.setCache fun c hc hi => ?_
      rcases mem_entrycacheSet hc with hc | ⟨-, rfl⟩
      · exact hmap.safe.cached c hc hi
      · exact (hmap.harmless _).2 (hval hi)
    rw [hmap.current] at hset
    exact hmap.trans hs hset
  · rw [getTableEntry_hit hhit]
    obtain ⟨h0, c, hc, hi, hentry⟩ := entrycacheGet_hit hhit
    refine ⟨htouch, fun hk => ?_, fun h => absurd h h0⟩
    rw [← hentry]
    exact hs.cached c hc (by rw [hi]; exact hk)

theorem KernelSafe.grown (hk : kernelTables ≤ t) (h0 : s.tableWord s.current t = 0) (h : Grown s s' t w)
    (hz : ∀ j, s'.frames (addressOf w) j = 0) : Untouched s s' := by
  have hfresh : ¬KernelTable s (addressOf w) := fun hkt => hs.inUse _ hkt h.alloc.wasFree
  refine hs.change ⟨h.live, h.current, h.tableFrame⟩ (by rw [h.rest]) (by rw [h.dirs]) ?_ ?_
    (by rw [h.rest]; exact hs.spaces) ?_ ?_ ?_ ?_
  · intro f hf hfree
    exact hs.inUse f hf ((h.alloc.free_iff f).1 hfree).1
  · rw [h.dirs]
    exact hs.cached
  · intro d u hdu
    exact h.words d u (hdu.imp_right fun hu => by omega)
  · intro f j hf hslot
    exact h.frames f j (fun heq => hfresh (heq ▸ hf)) hslot
  · intro u hku hu hw
    by_cases hut : u = t
    · subst hut
      rw [h.word]
      exact ⟨Nat.ne_of_gt h.alloc.pos, hfresh⟩
    · rw [h.words _ _ (.inr hut)] at hw ⊢
      exact hs.tables u hku hu hw
  · intro j hku hj
    have htab := table_of_user hku hj
    by_cases hut : j / 1024 = t
    · rw [storedEntry, hut, h.word, hz, ite_self]
      exact harmless_zero s
    · refine hs.harmless_entry hku hj (h.words _ _ (.inr hut)) fun hw => ?_
      by_cases hnew : addressOf (s.tableWord s.current (j / 1024)) = addressOf w
      · rw [hnew]
        exact .inl (hz _)
      · exact .inr (h.frames _ _ hnew fun hh => hs.user_ne_windowTable htab.1 htab.2 hw hh.1)

theorem showTable_untouched (hk : kernelTables ≤ t) (ht : t < 1024)
    (h : showTable s s.current t = some s') : Untouched s s' ∧ ¬KernelTable s s'.window := by
  simp only [showTable] at h
  by_cases h0 : s.tableWord s.current t = 0
  · rw [if_neg fun hc => hc.1 h0] at h
    obtain ⟨w, hgrown, hz, hwin, -⟩ := growTable_spec hs.usable h0 h
    refine ⟨hs.grown hk h0 hgrown hz, ?_⟩
    rw [hwin]
    exact fun hkt => hs.inUse _ hkt hgrown.alloc.wasFree
  · obtain ⟨ha, hnot⟩ := hs.tables t hk ht h0
    obtain ⟨htrue, hwin⟩ := hs.mapTable_window ha
    rw [if_pos ⟨h0, htrue⟩] at h
    cases h
    refine ⟨hs.mapTable _, ?_⟩
    rw [hwin]
    exact hnot

theorem storeEntry_untouched (hwin : ¬KernelTable s s.window)
    (he : Harmless s e) : Untouched s (storeEntry s s.current idx e) := by
  have hdirs : (storeEntry s s.current idx e).dirs s.current = _ := storeEntry_dirs s.current
  refine hs.change ⟨rfl, rfl, rfl⟩ rfl (by rw [hdirs]) hs.inUse ?_ hs.spaces
    (fun d t _ => storeEntry_tableWord d t) ?_ ?_ ?_
  · intro c hc hu
    simp only [storeEntry, State.setCache, setDir_self] at hc
    have hpos : c.index ≠ 0 := by
      rw [kernelPages] at hu
      omega
    exact hs.cached c (mem_entrycacheClear hc hpos).1 hu
  · intro f j hf _
    rw [storeEntry_frames, if_neg]
    rintro ⟨rfl, -⟩
    exact hwin hf
  · intro t hk ht
    rw [storeEntry_tableWord]
    exact hs.tables t hk ht
  · intro j hu hj
    simp only [storedEntry, storeEntry_tableWord, storeEntry_frames]
    split
    · exact harmless_zero s
    · rename_i ha
      split
      · exact he
      · have := hs.entries j hu hj
        rwa [storedEntry, if_neg ha] at this

/-- **Writing the entry of a page of user space.** -/
theorem setTableEntry_untouched (hu : kernelPages ≤ idx) (hidx : idx < 2 ^ 20)
    (he : Harmless s e) (h : setTableEntry s s.current idx e = some s') : Untouched s s' := by
  obtain ⟨x, hx, rfl⟩ := Option.map_eq_some_iff.1 h
  have htab := table_of_user hu hidx
  obtain ⟨hux, hwin⟩ := showTable_untouched hs htab.1 htab.2 hx
  have hstore : Untouched x (storeEntry x x.current idx e) := storeEntry_untouched hux.safe
    (fun hkt => hwin ((hux.kernelTable _).1 hkt)) ((hux.harmless e).2 he)
  rw [hux.current] at hstore
  exact hux.trans hs hstore

end

end

end Btos.Kernel.Mm2
