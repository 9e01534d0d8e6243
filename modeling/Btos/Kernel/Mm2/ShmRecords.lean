import Btos.Kernel.Mm2.FrameSafety

/-!
# The records of shared memory

The spaces and the mappings, and which operations touch them.  Nothing is assumed about the page tables
here: whatever state they are in, an operation on entries leaves the records alone.

* `memStep_within` — **only `shm_create` and `shm_map` make records**.
-/

namespace Btos.Kernel.Mm2

open Lib.Word Lib.Loop Lib.Transition Option List

structure ShmRecords where
  spaces : List (ℕ × ShmSpace)
  spaceIdCounter : ℕ
  mappings : List (ℕ × ShmMapping)
  mappingIdCounter : ℕ

def State.shm (s : State) : ShmRecords := ⟨s.spaces, s.spaceIdCounter, s.mappings, s.mappingIdCounter⟩

/-! ### Entries -/

/-- The records and the current process are as before, and no page is `Free` that was not. -/
structure Calm (s s' : State) : Prop where
  shm : s'.shm = s.shm
  current : s'.current = s.current
  free : ∀ f, IsFree s'.physical f → IsFree s.physical f

section

variable {s s' : State} {d : Pid}

theorem Calm.refl (s : State) : Calm s s := ⟨rfl, rfl, fun _ => id⟩

theorem Calm.trans (h : Calm s s') (h' : Calm s' s'') : Calm s s'' :=
  ⟨h'.shm.trans h.shm, h'.current.trans h.current, fun f hf => h.free f (h'.free f hf)⟩

theorem setCache_calm (s : State) (d : Pid) (cache : List CacheEntry) : Calm s (s.setCache d cache) :=
  ⟨rfl, rfl, fun _ => id⟩

theorem zeroFrame_calm (s : State) (f : ℕ) : Calm s (s.zeroFrame f) := ⟨rfl, rfl, fun _ => id⟩

theorem mapTable_calm (s : State) (d : Pid) (a : ℕ) : Calm s (mapTable s d a).2 := by
  unfold mapTable
  split
  · exact .refl s
  · split <;> exact ⟨rfl, rfl, fun _ => id⟩

theorem getTableEntry_calm (s : State) (d : Pid) (idx : ℕ) : Calm s (getTableEntry s d idx).2 := by
  unfold getTableEntry
  simp only
  split
  · exact setCache_calm ..
  · exact ((setCache_calm ..).trans (mapTable_calm ..)).trans (setCache_calm ..)

theorem clearTable_calm (s : State) (d : Pid) (page : ℕ) : Calm s (clearTable s d page) := by
  have h := (mapTable_calm s d page).trans (zeroFrame_calm _ (mapTable s d page).2.window)
  unfold clearTable
  simp only
  split
  · exact h.trans (mapTable_calm ..)
  · exact h

theorem physicalAlloc_calm (h : physicalAlloc s.physical = some r) : Calm s { s with physical := r.2 } :=
  ⟨rfl, rfl, fun f hf => (((physicalAlloc_spec h).free_iff f).1 hf).1⟩

theorem setTableEntry_calm (h : setTableEntry s d idx e = some s') : Calm s s' := by
  obtain ⟨x, hx, rfl⟩ := map_eq_some_iff.1 h
  suffices hshow : Calm s x from hshow.trans ⟨rfl, rfl, fun _ => id⟩
  simp only [showTable] at hx
  split at hx
  · cases hx
    exact mapTable_calm ..
  · obtain ⟨y, hy, rfl⟩ := map_eq_some_iff.1 hx
    obtain ⟨r, hr, rfl⟩ := map_eq_some_iff.1 hy
    have hinstall : Calm s (installTable s d (idx / 1024) r.1 r.2) :=
      (physicalAlloc_calm hr).trans ⟨rfl, rfl, fun _ => id⟩
    exact (hinstall.trans (clearTable_calm ..)).trans ((mapTable_calm ..).trans (zeroFrame_calm ..))

theorem Noted.calm (h : Noted s s') : Calm s s' :=
  ⟨by rw [h.rest]; rfl, h.kept.current, by rw [h.physical]; exact fun _ => id⟩

theorem mapPageAt_calm (h : mapPageAt s addr page flags = some s') : Calm s s' := by
  obtain ⟨x, hx, rfl⟩ := map_eq_some_iff.1 h
  exact (setTableEntry_calm hx).trans (count_noted x addr _).calm

theorem mapNewPageAt_calm (h : mapNewPageAt s addr flags = some s') : Calm s s' := by
  obtain ⟨r, hr, h⟩ := bind_eq_some_iff.1 h
  obtain ⟨x, hx, h⟩ := bind_eq_some_iff.1 h
  have hx' := (physicalAlloc_calm hr).trans (mapPageAt_calm hx)
  simp only [clearPage] at h
  split at h
  · cases h
    exact hx'.trans (zeroFrame_calm ..)
  · cases h

theorem turns_shm (hturn : ∀ i u v, turn i u = some v → v.shm = u.shm) (h : turns turn n s = some s') :
    s'.shm = s.shm :=
  turns_invariant (fun _ u => u.shm = s.shm) rfl n
    (fun i _ u v _ hu hv => (hturn i u v hv).trans hu) h

theorem freePages_shm (h : freePages s addr pages = some s') : s'.shm = s.shm := by
  refine turns_shm ?_ h
  intro i u v hv
  obtain ⟨x, hx, rfl⟩ := map_eq_some_iff.1 hv
  have hrelease : ∀ (y : State) e, (releaseEntry y e).shm = y.shm := by
    intro y e
    rw [releaseEntry_eq]
    rfl
  rw [(count_noted x _ _).calm.shm, (setTableEntry_calm hx).shm, hrelease, (getTableEntry_calm ..).shm,
    (lowerHint_noted u _).calm.shm]

theorem guardPageAt_shm (h : guardPageAt s ptr = some s') : s'.shm = s.shm := by
  unfold guardPageAt at h
  simp only at h
  split at h
  · split at h
    · cases h
    · obtain ⟨x, hx, h⟩ := bind_eq_some_iff.1 h
      rw [(setTableEntry_calm h).shm, (getTableEntry_calm ..).shm, freePages_shm hx, (getTableEntry_calm ..).shm]
  · rw [(setTableEntry_calm h).shm, (getTableEntry_calm ..).shm]

theorem allocSearch_shm (pages : ℕ) (mode : AllocMode) (fuel : ℕ) : ∀ (pageno found firstpage : ℕ) (s : State),
      (allocSearch pages mode fuel pageno found firstpage s).2.shm = s.shm := by
  have hraise : ∀ (s : State) p, (raiseHint s pages p mode).shm = s.shm :=
    fun s p => (raiseHint_noted s pages p mode).calm.shm
  have havail : ∀ (s : State) p, (isAvailable s s.current p).2.shm = s.shm := fun s p =>
    (getTableEntry_calm ..).shm
  induction fuel with
  | zero => exact fun _ _ _ _ => rfl
  | succ fuel ih =>
    intro pageno found firstpage s
    rw [allocSearch]
    simp only
    split
    · split
      · exact havail s pageno
      · rw [ih, havail]
    · split
      · rw [hraise, havail]
      · rw [ih, hraise, havail]

theorem alloc_shm (h : alloc s pages mode = some r) : r.2.shm = s.shm := by
  unfold alloc at h
  simp only at h
  split at h
  · cases h
  · split at h
    · cases h
      exact allocSearch_shm ..
    · obtain ⟨x, hx, rfl⟩ := map_eq_some_iff.1 h
      rw [turns_shm (fun i u v hv => (mapNewPageAt_calm hv).shm) hx, allocSearch_shm]

theorem mm2Switch_shm (s : State) (newdir : Pid) : (mm2Switch s newdir).shm = s.shm := by
  unfold mm2Switch
  split <;> rfl

/-- **An operation of the directories** keeps the records. -/
theorem dirStep_shm (h : dirStep s op = some s') : s'.shm = s.shm := by
  cases op with
  | alloc pages mode =>
    obtain ⟨r, hr, rfl⟩ := map_eq_some_iff.1 h
    exact alloc_shm hr
  | allocPagesAt pages baseaddr => exact turns_shm (fun i u v hv => (mapNewPageAt_calm hv).shm) h
  | mapPageAt addr page flags => exact (mapPageAt_calm h).shm
  | mapNewPageAt addr flags => exact (mapNewPageAt_calm h).shm
  | freePages addr pages => exact freePages_shm h
  | guardPageAt ptr => exact guardPageAt_shm h
  | look addr =>
    cases h
    exact (getTableEntry_calm ..).shm
  | switchTo pid =>
    simp only [dirStep] at h
    split at h
    · cases h
      exact mm2Switch_shm s pid
    · cases h
  | newDirectory pid rest =>
    simp only [dirStep, newDirectory] at h
    split at h
    · cases h
    · obtain ⟨r, hr, h⟩ := bind_eq_some_iff.1 h
      split at h
      · cases h
      · cases h
        show (virt2phys r.2 r.2.current r.1).2.shm = s.shm
        rw [← alloc_shm hr]
        exact (getTableEntry_calm ..).shm
  | startScheduler =>
    cases h
    rfl

theorem destroyEntries_shm (s : State) (n : ℕ) : (destroyEntries s n).shm = s.shm := by
  induction n with
  | zero => rfl
  | succ n ih =>
    rw [destroyEntries, ← ih]
    unfold destroyEntry
    simp only
    split <;> rfl

theorem destroyTable_shm (d : Pid) (i : ℕ) (s : State) : (destroyTable d i s).shm = s.shm := by
  -- the number of entries is not to be unfolded
  obtain ⟨n, hn⟩ : ∃ n, n = 1024 := ⟨_, rfl⟩
  simp only [destroyTable, ← hn]
  split
  · exact (destroyEntries_shm _ n).trans (mapTable_calm ..).shm
  · exact (mapTable_calm ..).shm

/-- **The destructor** keeps the records. -/
theorem destroyDirectory_shm (h : destroyDirectory s d = some s') : s'.shm = s.shm := by
  have htables : ∀ n, (destroyTables s d n).shm = s.shm := by
    intro n
    induction n with
    | zero => rfl
    | succ n ih => rw [destroyTables, destroyTable_shm, ih]
  obtain ⟨n, hn⟩ : ∃ n, n = 1024 - kernelTables := ⟨_, rfl⟩
  simp only [destroyDirectory, ← hn] at h
  split at h
  · cases h
  · exact (freePages_shm h).trans (htables n)

end

/-! ### Records -/

/-- Nothing is recorded in `r'` that is not in `r`, but for the pages of the spaces. -/
structure ShmRecords.Within (r' r : ShmRecords) : Prop where
  spaces : ∀ x ∈ r'.spaces, ∃ y ∈ r.spaces, y.1 = x.1 ∧ y.2.owner = x.2.owner ∧ y.2.flags = x.2.flags
  mappings : ∀ x ∈ r'.mappings, x ∈ r.mappings
  spaceIdCounter : r'.spaceIdCounter = r.spaceIdCounter
  mappingIdCounter : r'.mappingIdCounter = r.mappingIdCounter

theorem ShmRecords.Within.refl (r : ShmRecords) : r.Within r :=
  ⟨fun x hx => ⟨x, hx, rfl, rfl, rfl⟩, fun _ => id, rfl, rfl⟩

theorem ShmRecords.Within.of_eq {r' r : ShmRecords} (h : r' = r) : r'.Within r := h ▸ .refl r

theorem ShmRecords.Within.trans {r'' r' r : ShmRecords} (h : r''.Within r') (h' : r'.Within r) :
    r''.Within r where
  spaces x hx := by
    obtain ⟨y, hy, hid, howner, hflags⟩ := h.spaces x hx
    obtain ⟨z, hz, hid', howner', hflags'⟩ := h'.spaces y hy
    exact ⟨z, hz, hid'.trans hid, howner'.trans howner, hflags'.trans hflags⟩
  mappings x hx := h'.mappings x (h.mappings x hx)
  spaceIdCounter := h.spaceIdCounter.trans h'.spaceIdCounter
  mappingIdCounter := h.mappingIdCounter.trans h'.mappingIdCounter

section Records

variable {s s' : State}

theorem addSpacePage_within (s : State) (id offset page : ℕ) :
    (addSpacePage s id offset page).shm.Within s.shm := by
  refine ⟨?_, fun _ hx => hx, rfl, rfl⟩
  intro x hx
  obtain ⟨y, hy, rfl⟩ := mem_map.1 hx
  refine ⟨y, hy, ?_⟩
  split
  · exact ⟨rfl, rfl, rfl⟩
  · exact ⟨rfl, rfl, rfl⟩

theorem shmPfHandler_within {id addr : ℕ} (h : shmPfHandler s id addr = some s') : s'.shm.Within s.shm := by
  obtain ⟨m, space, -, -, hcase⟩ := shmPfHandler_cases h
  rcases hcase with ⟨page, -, hmap⟩ | ⟨f, ph, -, hmap⟩
  · exact .of_eq (mapPageAt_calm hmap).shm
  · rw [(mapPageAt_calm hmap).shm]
    exact addSpacePage_within { s with physical := ph } _ _ _

theorem handle_within {r : Region} {addr : ℕ} (h : r.handle s addr = some s') : s'.shm.Within s.shm := by
  unfold Region.handle at h
  split at h
  · exact shmPfHandler_within h
  · obtain ⟨m, -, h⟩ := bind_eq_some_iff.1 h
    split at h
    · cases h
    · split at h
      · exact .of_eq (mapNewPageAt_calm h).shm
      · cases h

theorem handlePf_within (h : handlePf s d addr = some r) : r.2.shm.Within s.shm := by
  rcases handlePf_cases h with rfl | ⟨region, y, -, hy, rfl⟩
  · exact .of_eq (getTableEntry_calm ..).shm
  · exact (handle_within hy).trans (.of_eq (getTableEntry_calm ..).shm)

theorem pageFault_within {addr : ℕ} {user : Bool} (h : pageFault s addr user = some s') :
    s'.shm.Within s.shm := by
  have hlook : (virt2phys s s.current addr).2.shm = s.shm := (getTableEntry_calm ..).shm
  obtain ⟨r, hr, h⟩ := bind_eq_some_iff.1 h
  have hr' := (handlePf_within hr).trans (.of_eq hlook)
  split at h
  · cases h
    exact hr'
  · obtain ⟨k, hk, h⟩ := bind_eq_some_iff.1 h
    split at h
    · cases h
      exact (handlePf_within hk).trans hr'
    · cases h

theorem resolveAddr_within (h : resolveAddr s addr = some r) : r.2.shm.Within s.shm := by
  obtain ⟨x, hx, rfl⟩ := map_eq_some_iff.1 h
  exact (ShmRecords.Within.of_eq (getTableEntry_calm ..).shm).trans (handlePf_within hx)

theorem shmCloseMap_within {id : ℕ} (h : shmCloseMap s id = some s') :
    s'.shm.Within s.shm ∧ s'.spaces = s.spaces := by
  unfold shmCloseMap at h
  split at h
  · cases h
    exact ⟨.refl _, rfl⟩
  · rename_i m hm
    split at h
    · obtain ⟨x, hx, h⟩ := bind_eq_some_iff.1 h
      have hx' : x.shm = s.shm :=
        (turns_shm (fun i u v hv => (mapNewPageAt_calm hv).shm) hx).trans (mm2Switch_shm s m.pid)
      split at h
      · cases h
        refine ⟨?_, (congrArg ShmRecords.spaces (mm2Switch_shm ..)).trans (ShmRecords.mk.inj hx').1⟩
        rw [mm2Switch_shm, ← hx']
        exact ⟨fun y hy => ⟨y, hy, rfl, rfl, rfl⟩, fun y hy => (mem_filter.1 hy).1, rfl, rfl⟩
      · cases h
    · cases h

theorem shmClose_within {id : ℕ} (h : shmClose s id = some s') :
    s'.shm.Within s.shm ∧ s'.spaces = s.spaces.filter fun p => p.1 != id := by
  obtain ⟨sp, -, h⟩ := bind_eq_some_iff.1 h
  obtain ⟨x, hx, h⟩ := bind_eq_some_iff.1 h
  obtain ⟨space, -, rfl⟩ := map_eq_some_iff.1 h
  have hclose : x.shm.Within s.shm ∧ x.spaces = s.spaces := by
    split at hx
    · cases hx
      exact ⟨.refl _, rfl⟩
    · exact shmCloseMap_within hx
  refine ⟨ShmRecords.Within.trans ?_ hclose.1, congrArg _ hclose.2⟩
  exact ⟨fun y hy => ⟨y, (mem_filter.1 hy).1, rfl, rfl, rfl⟩, fun _ hx => hx, rfl, rfl⟩

theorem btAllocAt_shm (h : btAllocAt s b c = some s') : s'.shm = s.shm := by
  unfold btAllocAt at h
  split at h
  · cases h
    rfl
  · exact allocAtLoop_rule (fun u => u.shm = s.shm) (fun _ _ _ hu _ _ hv => (mapNewPageAt_calm hv).shm.trans hu)
      _ _ _ rfl h

theorem btFreePages_shm (h : btFreePages s b c = some s') : s'.shm = s.shm := by
  rw [btFreePages_eq] at h
  split at h
  · exact freePages_shm h
  · cases h
    rfl

/-- Freeing and guarding pages makes no records. -/
theorem guarded_shm (hx : freePages s addr pages = some x)
    (hu : turns (fun i s => guardPageAt s (addr + i * pageSize)) n x = some u) : u.shm = s.shm :=
  (turns_shm (fun _ _ _ => guardPageAt_shm) hu).trans (freePages_shm hx)

def MakesNone (s : State) : MemOp → Prop
  | .shmCreate _ => False
  | .shmMap id addr offset _ _ => shmMapChecks s id addr offset = false
  | _ => True

/-- **Only `shm_create` and `shm_map` make records.** -/
theorem memStep_within (hop : MakesNone s op) (h : memStep s op = some s') : s'.shm.Within s.shm := by
  cases op with
  | dir op => exact .of_eq (dirStep_shm h)
  | destroy pid => exact .of_eq (destroyDirectory_shm h)
  | shmCreate flags => exact hop.elim
  | shmMap id addr offset pages flags =>
    obtain ⟨r, hr, rfl⟩ := map_eq_some_iff.1 h
    rcases shmMap_cases hr with ⟨-, heq⟩ | ⟨hchecks, -⟩
    · exact .of_eq (congrArg State.shm heq)
    · exact absurd (hop.symm.trans hchecks) Bool.false_ne_true
  | shmCloseMap id => exact (shmCloseMap_within h).1
  | shmClose id => exact (shmClose_within h).1
  | pageFault addr user => exact pageFault_within h
  | allocAt b c => exact .of_eq (btAllocAt_shm h)
  | freePages b c => exact .of_eq (btFreePages_shm h)

end Records

end Btos.Kernel.Mm2
