import Btos.Kernel.Mm2.PageDirectory

/-!
# Sound page tables

`Tables` is the invariant of the page tables of all existing directories: the tables are distinct
pages in use, kernel tables are shared, the window works, and **every cached entry is the stored
one**.  The entry of the window itself is left out of the last part; it changes whenever a table is
looked at.

* `Intact.tables` — **sound tables that are left intact stay sound**.
-/

namespace Btos.Kernel.Mm2

open Lib.Bits List

/-! ### Words -/

theorem addressOf_or (ha : a % 4096 = 0) (hlt : a < 2 ^ 32) (hf : f < 4096) : addressOf (a ||| f) = a :=
  and_mask_or ha hlt hf

theorem addressOf_self (ha : a % 4096 = 0) (hlt : a < 2 ^ 32) : addressOf a = a := and_mask_self ha hlt

theorem addressOf_aligned (e : ℕ) : addressOf e % 4096 = 0 := and_mask_aligned e

theorem addressOf_lt (e : ℕ) : addressOf e < 2 ^ 32 := and_mask_lt e

theorem ne_zero_of_address (h : addressOf e ≠ 0) : e ≠ 0 := by
  rintro rfl
  exact h rfl

@[simp] theorem addressOf_addressOf (e : ℕ) : addressOf (addressOf e) = addressOf e :=
  addressOf_self (addressOf_aligned e) (addressOf_lt e)

theorem addressOf_div (ha : a < 2 ^ 32) : addressOf a / 4096 = a / 4096 := by
  rw [addressOf, and_mask_eq ha]
  omega

theorem present_or (ha : a % 4096 = 0) (hf : f < 4096) : present (a ||| f) = decide (f % 2 = 1) := by
  rw [present, PageFlag.present, or_and_one ha hf]
  rcases Nat.mod_two_eq_zero_or_one f with h | h <;> simp [h]

/-- The word that `mapTable` puts into the window's entry. -/
theorem windowWord (a : ℕ) : a ||| PageFlag.present ||| PageFlag.writable = a ||| 3 := by
  rw [Nat.or_assoc]
  rfl

/-! ### The cache functions -/

variable {s : State} {idx : ℕ} {d : Pid}

theorem entrycacheGet_hit (h : (entrycacheGet cache idx).1 ≠ 0) :
    idx ≠ 0 ∧ ∃ c ∈ cache, c.index = idx ∧ c.entry = (entrycacheGet cache idx).1 := by
  unfold entrycacheGet at h ⊢
  by_cases h0 : idx = 0
  · rw [if_pos h0] at h
    exact absurd rfl h
  · rw [if_neg h0] at h ⊢
    refine ⟨h0, ?_⟩
    cases hlast : (cache.filter fun c =>
        c.index == idx && decide (c.hits < entrycacheMaxhits)).getLast? with
    | none =>
      rw [hlast] at h
      exact absurd rfl h
    | some c =>
      have hmem := mem_filter.1 (mem_of_getLast? hlast)
      simp only [Bool.and_eq_true, beq_iff_eq] at hmem
      exact ⟨c, hmem.1, hmem.2.1, rfl⟩

theorem CacheEntry.touch_index (c : CacheEntry) : c.touch.index = c.index := by
  unfold CacheEntry.touch
  split <;> rfl

theorem CacheEntry.touch_entry (c : CacheEntry) : c.touch.entry = c.entry := by
  unfold CacheEntry.touch
  split <;> rfl

theorem mem_entrycacheGet (h : c ∈ (entrycacheGet cache idx).2) :
    ∃ c₀ ∈ cache, c₀.index = c.index ∧ c₀.entry = c.entry := by
  unfold entrycacheGet at h
  by_cases h0 : idx = 0
  · rw [if_pos h0] at h
    exact ⟨c, h, rfl, rfl⟩
  · rw [if_neg h0] at h
    obtain ⟨c₀, hmem, rfl⟩ := mem_map.1 h
    refine ⟨c₀, hmem, ?_⟩
    split
    · exact ⟨c₀.touch_index.symm, c₀.touch_entry.symm⟩
    · exact ⟨rfl, rfl⟩

theorem mem_entrycacheSet (h : c ∈ entrycacheSet cache idx e) : c ∈ cache ∨ (e ≠ 0 ∧ c = ⟨idx, e, 0⟩) := by
  unfold entrycacheSet at h
  split at h
  · exact .inl h
  · rename_i he
    exact (mem_or_eq_of_mem_set h).imp id fun hc => ⟨he, hc⟩

theorem mem_entrycacheClear (h : c ∈ entrycacheClear cache idx)
    (h0 : c.index ≠ 0) : c ∈ cache ∧ c.index ≠ idx := by
  obtain ⟨c0, hmem, rfl⟩ := mem_map.1 h
  split at h0
  · exact absurd rfl h0
  · rename_i hne
    rw [if_neg hne]
    exact ⟨hmem, hne⟩

/-! ### The invariant -/

/-- The entries that the kernel stores: none, a page, or a guard page. -/
def EntryOk (e : ℕ) : Prop := e = 0 ∨ present e = true ∨ e = PageFlag.guardPage

/-- A cached entry is right: it is the stored one; for the window's page, some present entry. -/
def Right (s : State) (d : Pid) (c : CacheEntry) : Prop :=
  (c.index = s.tableFrame ∧ present c.entry = true) ∨
    (c.index ≠ s.tableFrame ∧ c.index < 2 ^ 20 ∧ c.entry = storedEntry s d c.index)

/-- The physical page at `f` is a page table of an existing directory. -/
def IsTable (s : State) (f : ℕ) : Prop :=
  ∃ d t, s.live d = true ∧ t < 1024 ∧ s.tableWord d t ≠ 0 ∧ addressOf (s.tableWord d t) = f

structure Tables (s : State) : Prop where
  frame_lt : s.tableFrame < kernelPages
  frame_pos : 0 < s.tableFrame
  live_current : s.live s.current = true
  windowed : s.tableWord s.current (s.tableFrame / 1024) ≠ 0
  words : ∀ d t, s.live d = true → t < 1024 → s.tableWord d t ≠ 0 →
    present (s.tableWord d t) = true ∧ addressOf (s.tableWord d t) ≠ 0
  shared : ∀ d t, s.live d = true → t < kernelTables → s.tableWord d t ≠ 0 →
    s.tableWord d t = s.tableWord s.current t
  apart : ∀ d d' t t', s.live d = true → s.live d' = true → t < 1024 → t' < 1024 →
    s.tableWord d t ≠ 0 → s.tableWord d' t' ≠ 0 →
    addressOf (s.tableWord d t) = addressOf (s.tableWord d' t') → t = t' ∧ (d = d' ∨ t < kernelTables)
  inUse : ∀ d t, s.live d = true → t < 1024 → s.tableWord d t ≠ 0 →
    ¬IsFree s.physical (addressOf (s.tableWord d t))
  entries : ∀ d idx, s.live d = true → idx < 2 ^ 20 → idx ≠ s.tableFrame → EntryOk (storedEntry s d idx)
  windowEntry : present (s.frames (s.windowTable s.current) (s.tableFrame % 1024)) = true
  cached : ∀ d, s.live d = true → ∀ c ∈ (s.dirs d).entrycache, c.entry ≠ 0 → c.index ≠ 0 → Right s d c
  null : storedEntry s s.current 0 ≠ 0

/-- A page of user space is not the window's. -/
theorem Tables.ne_frame (h : Tables s) (hu : kernelPages ≤ idx) : idx ≠ s.tableFrame :=
  Nat.ne_of_gt (Nat.lt_of_lt_of_le h.frame_lt hu)

theorem Tables.windowIndex_lt (h : Tables s) : s.tableFrame / 1024 < kernelTables :=
  kernel_table_iff.2 h.frame_lt

/-- A directory that shows the window shows it through the same table as the current one. -/
theorem Tables.windowTable_eq (h : Tables s) (hd : s.live d = true)
    (hw : s.tableWord d (s.tableFrame / 1024) ≠ 0) : s.windowTable d = s.windowTable s.current := by
  rw [State.windowTable, State.windowTable, h.shared d _ hd h.windowIndex_lt hw]

theorem Tables.slot_ne (h : Tables s) (hd : s.live d = true) (hidx : idx < 2 ^ 20) (hne : idx ≠ s.tableFrame)
    (hw : s.tableWord d (idx / 1024) ≠ 0) : ¬(addressOf (s.tableWord d (idx / 1024)) = s.windowTable s.current ∧
      idx % 1024 = s.tableFrame % 1024) := by
  rintro ⟨hf, hj⟩
  have hlt := h.windowIndex_lt
  have ht := (h.apart d s.current (idx / 1024) (s.tableFrame / 1024) hd h.live_current (by omega)
    (by simp only [kernelTables] at hlt; omega) hw h.windowed hf).1
  omega

theorem Tables.stored_of_word (h : Tables s) (hd : s.live d = true) (hidx : idx < 2 ^ 20)
    (hw : s.tableWord d (idx / 1024) ≠ 0) :
    storedEntry s d idx = s.frames (addressOf (s.tableWord d (idx / 1024))) (idx % 1024) :=
  if_neg (h.words d _ hd (by omega) hw).2

theorem stored_of_no_word (hw : s.tableWord d (idx / 1024) = 0) : storedEntry s d idx = 0 := by
  rw [storedEntry, hw]
  rfl

theorem word_of_stored (h : storedEntry s d idx ≠ 0) : s.tableWord d (idx / 1024) ≠ 0 := mt stored_of_no_word h

theorem stored_congr (hword : s'.tableWord d (idx / 1024) = s.tableWord d (idx / 1024))
    (hframes : s.tableWord d (idx / 1024) ≠ 0 → s'.frames (addressOf (s.tableWord d (idx / 1024)))
      (idx % 1024) = s.frames (addressOf (s.tableWord d (idx / 1024))) (idx % 1024)) :
    storedEntry s' d idx = storedEntry s d idx := by
  by_cases hw : s.tableWord d (idx / 1024) = 0
  · rw [stored_of_no_word hw, stored_of_no_word (hword.trans hw)]
  · simp only [storedEntry, hword]
    rw [hframes hw]

/-! ### Tables from sound tables -/

/-- Every table word of `s'` is one of `s`: of the same directory or, in the kernel half, of any. -/
structure Sourced (s s' : State) : Prop where
  tableFrame : s'.tableFrame = s.tableFrame
  live_current : s'.live s'.current = true
  copied : ∀ t, t < kernelTables → s'.tableWord s'.current t = s.tableWord s.current t
  word : ∀ {d t}, s'.live d = true → s'.tableWord d t ≠ 0 →
    ∃ e, s.live e = true ∧ s'.tableWord d t = s.tableWord e t ∧ (e = d ∨ t < kernelTables)

namespace Sourced

variable {s s' : State} (h : Sourced s s')
include h

theorem windowTable (ht : Tables s) : s'.windowTable s'.current = s.windowTable s.current := by
  rw [State.windowTable, State.windowTable, h.tableFrame, h.copied _ ht.windowIndex_lt]

theorem isTable (hf : IsTable s' f) : IsTable s f := by
  obtain ⟨d, t, hd, htlt, hw, rfl⟩ := hf
  obtain ⟨e, he, heq, -⟩ := h.word hd hw
  rw [heq] at hw ⊢
  exact ⟨e, t, he, htlt, hw, rfl⟩

/-- **Where the words come from sound tables**, what remains is the entries, the cache and what is
`Free`. -/
theorem tables (ht : Tables s) (hfree : ∀ g, IsTable s g → IsFree s'.physical g → IsFree s.physical g)
    (hentries : ∀ d idx, s'.live d = true → idx < 2 ^ 20 → idx ≠ s.tableFrame → EntryOk (storedEntry s' d idx))
    (hwindow : present (s'.frames (s.windowTable s.current) (s.tableFrame % 1024)) = true)
    (hcached : ∀ d, s'.live d = true → ∀ c ∈ (s'.dirs d).entrycache, c.entry ≠ 0 → c.index ≠ 0 → Right s' d c)
    (hnull : storedEntry s' s'.current 0 ≠ 0) : Tables s' where
  frame_lt := h.tableFrame ▸ ht.frame_lt
  frame_pos := h.tableFrame ▸ ht.frame_pos
  live_current := h.live_current
  windowed := by
    rw [h.tableFrame, h.copied _ ht.windowIndex_lt]
    exact ht.windowed
  words d t hd htlt hw := by
    obtain ⟨e, he, heq, -⟩ := h.word hd hw
    rw [heq] at hw ⊢
    exact ht.words e t he htlt hw
  shared d t hd hk hw := by
    obtain ⟨e, he, heq, -⟩ := h.word hd hw
    rw [h.copied t hk, heq]
    exact ht.shared e t he hk (heq ▸ hw)
  apart d d' t t' hd hd' htlt htlt' hw hw' haddr := by
    obtain ⟨e, he, heq, hcase⟩ := h.word hd hw
    obtain ⟨e', he', heq', hcase'⟩ := h.word hd' hw'
    rw [heq] at hw haddr
    rw [heq'] at hw' haddr
    obtain ⟨rfl, hor⟩ := ht.apart e e' t t' he he' htlt htlt' hw hw' haddr
    refine ⟨rfl, ?_⟩
    rcases hor with rfl | hk
    · rcases hcase with rfl | hk
      · exact hcase'
      · exact .inr hk
    · exact .inr hk
  inUse d t hd htlt hw hf := by
    obtain ⟨e, he, heq, -⟩ := h.word hd hw
    rw [heq] at hw hf
    exact ht.inUse e t he htlt hw (hfree _ ⟨e, t, he, htlt, hw, rfl⟩ hf)
  entries d idx hd hidx hne := hentries d idx hd hidx (h.tableFrame ▸ hne)
  windowEntry := by
    rw [h.windowTable ht, h.tableFrame]
    exact hwindow
  cached := hcached
  null := hnull

end Sourced

/-! ### Tables that are left intact -/

/-- The same directories exist, the same one is current, and the window is at the same page. -/
structure Stays (s s' : State) : Prop where
  live : s'.live = s.live
  current : s'.current = s.current
  tableFrame : s'.tableFrame = s.tableFrame

theorem Stays.trans (h : Stays s s') (h' : Stays s' s'') : Stays s s'' :=
  ⟨h'.live.trans h.live, h'.current.trans h.current, h'.tableFrame.trans h.tableFrame⟩

/-- The tables of the existing directories are the same but for the window's entry, what is remembered
of them is right, and none of them has become `Free`. -/
structure Intact (s s' : State) : Prop extends Stays s s' where
  words : ∀ d t, s.live d = true → s'.tableWord d t = s.tableWord d t
  frames : ∀ f j, IsTable s f → ¬(f = s.windowTable s.current ∧ j = s.tableFrame % 1024) →
    s'.frames f j = s.frames f j
  slot : present (s'.frames (s.windowTable s.current) (s.tableFrame % 1024)) = true
  cache : ∀ d, s.live d = true → ∀ c ∈ (s'.dirs d).entrycache, c.entry ≠ 0 → c.index ≠ 0 → Right s d c
  free : ∀ g, IsTable s g → IsFree s'.physical g → IsFree s.physical g

namespace Intact

variable {s s' : State}

section

variable (h : Intact s s')
include h

theorem isTable (f : ℕ) : IsTable s' f ↔ IsTable s f := by
  unfold IsTable
  rw [h.live]
  refine exists_congr fun d => exists_congr fun t => and_congr_right fun hd => ?_
  rw [h.words d t hd]

theorem stored (ht : Tables s) (hd : s.live d = true) (hidx : idx < 2 ^ 20)
    (hne : idx ≠ s.tableFrame) : storedEntry s' d idx = storedEntry s d idx :=
  stored_congr (h.words d _ hd) fun hw =>
    h.frames _ _ ⟨d, idx / 1024, hd, by omega, hw, rfl⟩ (ht.slot_ne hd hidx hne hw)

theorem right (ht : Tables s) (hd : s.live d = true) : Right s' d c ↔ Right s d c := by
  simp only [Right, h.tableFrame]
  refine or_congr Iff.rfl (and_congr_right fun hne => and_congr_right fun hlt => ?_)
  rw [h.stored ht hd hlt hne]

theorem sourced (ht : Tables s) : Sourced s s' where
  tableFrame := h.tableFrame
  live_current := by rw [h.live, h.current]; exact ht.live_current
  copied t _ := by rw [h.current, h.words _ t ht.live_current]
  word {d t} hd _ := by
    rw [h.live] at hd
    exact ⟨d, hd, h.words d t hd, .inl rfl⟩

/-- **Sound tables that are left intact stay sound.** -/
theorem tables (ht : Tables s) : Tables s' := by
  refine (h.sourced ht).tables ht h.free ?_ h.slot ?_ ?_
  · intro d idx hd hidx hne
    rw [h.live] at hd
    rw [h.stored ht hd hidx hne]
    exact ht.entries d idx hd hidx hne
  · intro d hd c hc he h0
    rw [h.live] at hd
    exact (h.right ht hd).2 (h.cache d hd c hc he h0)
  · rw [h.current, h.stored ht ht.live_current (by decide) (Nat.ne_of_lt ht.frame_pos)]
    exact ht.null

end

end Intact

/-! ### What reading changes -/

/-- What the operations on entries leave alone: which directories exist, which one is current, the
shared-memory bookkeeping, and in each directory the regions and the page it is in. -/
structure Kept (s s' : State) : Prop extends Stays s s' where
  schedulerReady : s'.schedulerReady = s.schedulerReady
  spaces : s'.spaces = s.spaces
  spaceIdCounter : s'.spaceIdCounter = s.spaceIdCounter
  mappings : s'.mappings = s.mappings
  mappingIdCounter : s'.mappingIdCounter = s.mappingIdCounter
  mmappings : s'.mmappings = s.mmappings
  regions : ∀ d, (s'.dirs d).regions = (s.dirs d).regions
  directoryPtr : ∀ d, (s'.dirs d).directoryPtr = (s.dirs d).directoryPtr
  directoryPhysical : ∀ d, (s'.dirs d).directoryPhysical = (s.dirs d).directoryPhysical

theorem Kept.refl (s : State) : Kept s s :=
  ⟨⟨rfl, rfl, rfl⟩, rfl, rfl, rfl, rfl, rfl, rfl, fun _ => rfl, fun _ => rfl, fun _ => rfl⟩

theorem Kept.trans (h : Kept s s') (h' : Kept s' s'') : Kept s s'' where
  toStays := h.toStays.trans h'.toStays
  schedulerReady := h'.schedulerReady.trans h.schedulerReady
  spaces := h'.spaces.trans h.spaces
  spaceIdCounter := h'.spaceIdCounter.trans h.spaceIdCounter
  mappings := h'.mappings.trans h.mappings
  mappingIdCounter := h'.mappingIdCounter.trans h.mappingIdCounter
  mmappings := h'.mmappings.trans h.mmappings
  regions d := (h'.regions d).trans (h.regions d)
  directoryPtr d := (h'.directoryPtr d).trans (h.directoryPtr d)
  directoryPhysical d := (h'.directoryPhysical d).trans (h.directoryPhysical d)

/-- The window's entry, the caches and the notes of current tables may differ, nothing else. -/
structure Quiet (s s' : State) : Prop where
  rest : s' = { s with frames := s'.frames, dirs := s'.dirs }
  dirs : ∀ d, s'.dirs d = { s.dirs d with
    currentTable := (s'.dirs d).currentTable, entrycache := (s'.dirs d).entrycache }
  frames : ∀ f j, ¬(f = s.windowTable s.current ∧ j = s.tableFrame % 1024) → s'.frames f j = s.frames f j
  slot : present (s'.frames (s.windowTable s.current) (s.tableFrame % 1024)) = true
  shows : s'.window = s.window ∨ IsTable s s'.window
  cache : ∀ d, s.live d = true → ∀ c ∈ (s'.dirs d).entrycache, c.entry ≠ 0 → c.index ≠ 0 → Right s d c

namespace Quiet

variable {s s' : State}

section

variable (h : Quiet s s')
include h

theorem tableWord (d : Pid) (t : ℕ) : s'.tableWord d t = s.tableWord d t := by
  rw [State.tableWord, h.dirs d]
  rfl

theorem kept : Kept s s' := by
  refine ⟨⟨?_, ?_, ?_⟩, ?_, ?_, ?_, ?_, ?_, ?_, fun d => ?_, fun d => ?_, fun d => ?_⟩
  all_goals first | rw [h.dirs d] | rw [h.rest]

theorem physical : s'.physical = s.physical := by rw [h.rest]

theorem live : s'.live = s.live := h.kept.live

theorem current : s'.current = s.current := h.kept.current

theorem tableFrame : s'.tableFrame = s.tableFrame := h.kept.tableFrame

theorem windowTable (d : Pid) : s'.windowTable d = s.windowTable d := by
  rw [State.windowTable, State.windowTable, h.tableWord, h.tableFrame]

theorem isTable (f : ℕ) : IsTable s' f ↔ IsTable s f := by
  simp only [IsTable, h.live, h.tableWord]

theorem intact : Intact s s' where
  toStays := h.kept.toStays
  words d t _ := h.tableWord d t
  frames f j _ hne := h.frames f j hne
  slot := h.slot
  cache := h.cache
  free g _ := by
    rw [h.physical]
    exact id

theorem stored (ht : Tables s) (hd : s.live d = true) (hidx : idx < 2 ^ 20)
    (hne : idx ≠ s.tableFrame) : storedEntry s' d idx = storedEntry s d idx :=
  h.intact.stored ht hd hidx hne

end

end Quiet

theorem Tables.quiet (ht : Tables s) (h : Quiet s s') : Tables s' := h.intact.tables ht

theorem Tables.quiet_refl (ht : Tables s) : Quiet s s where
  rest := rfl
  dirs _ := rfl
  frames _ _ _ := rfl
  slot := ht.windowEntry
  shows := .inl rfl
  cache := ht.cached

theorem Quiet.trans (ht : Tables s) (h : Quiet s s') (h' : Quiet s' s'') : Quiet s s'' where
  rest := by rw [h'.rest, h.rest]
  dirs d := by rw [h'.dirs d, h.dirs d]
  frames := by
    intro f j hne
    rw [h'.frames f j (by rw [h.windowTable, h.current, h.tableFrame]; exact hne), h.frames f j hne]
  slot := by
    have := h'.slot
    rwa [h.windowTable, h.current, h.tableFrame] at this
  shows := by
    rcases h'.shows with heq | htab
    · rw [heq]
      exact h.shows
    · exact .inr ((h.isTable _).1 htab)
  cache := by
    intro d hd c hc he h0
    exact (h.intact.right ht hd).1 (h'.cache d (by rw [h.live]; exact hd) c hc he h0)

end Btos.Kernel.Mm2
