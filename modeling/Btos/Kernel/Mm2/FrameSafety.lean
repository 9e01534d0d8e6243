import Btos.Kernel.Mm2.FrameClose
import Btos.Kernel.Mm2.FrameDestroy
import Btos.Kernel.Mm2.UserSpace

/-!
# No physical page is used twice

All operations on memory together: those of the directories, the destructor, shared memory, page
faults and the system calls `BT_ALLOC_AT` and `BT_FREE_PAGES`.

* `MemOk` — the condition on each of them.  What is unmapped with `free_pages`, on behalf of
  `BT_FREE_PAGES`, `shm_map` or the destructor, **must not be a page of a space**, since it is freed
  there and then; and a space that is closed has at most one mapping, since only one is closed;
* `framesSafe_of_memOk` — **in every run whose steps meet the condition it holds in every state**.
-/

namespace Btos.Kernel.Mm2

open Lib.Word Lib.Loop Lib.Ownership Lib.Transition List Option Bool Mm2

/-! ### The operations -/

/-- The operations on memory.  `allocAt` and `freePages` are `BT_ALLOC_AT` and `BT_FREE_PAGES` with
their registers. -/
inductive MemOp where
  | dir (op : DirOp)
  | destroy (pid : Pid)
  | shmCreate (flags : ℕ)
  | shmMap (id : Word64) (addr offset pages : Word32) (flags : ℕ)
  | shmCloseMap (id : ℕ)
  | shmClose (id : ℕ)
  | pageFault (addr : Word32) (user : Bool)
  | allocAt (b c : Word32)
  | freePages (b c : Word32)

def memStep (s : State) : MemOp → Option State
  | .dir op => dirStep s op
  | .destroy pid => destroyDirectory s pid
  | .shmCreate flags => some (shmCreate s flags).2
  | .shmMap id addr offset pages flags => (shmMap s id addr offset pages flags).map Prod.snd
  | .shmCloseMap id => shmCloseMap s id
  | .shmClose id => shmClose s id
  | .pageFault addr user => pageFault s addr user
  | .allocAt b c => btAllocAt s b c
  | .freePages b c => btFreePages s b c

/-- Each page of the range can be freed when its turn comes. -/
def RangeOk (s : State) (addr pages : ℕ) : Prop :=
  ∀ i < pages, ∀ u, turns (freeTurn addr) i s = some u →
    FreeTurnOk u (pageAddr addr i / 4096) ∧ NotShared u (pageAddr addr i / 4096)

/-- The condition on an operation, in the state before it; for `free_pages`, before each turn. -/
def MemOk (s : State) : MemOp → Prop
  | .dir op => DirOk s op ∧ PageOk s op
  | .destroy pid => DestroyOk s pid
  | .shmCreate _ => s.spaceIdCounter + 1 < 2 ^ 64
  | .shmMap id addr offset pages _ => shmMapChecks s id addr offset = true →
      s.schedulerReady = true ∧ s.current ≠ kernelPid ∧ s.mappingIdCounter + 1 < 2 ^ 64 ∧
        kernelBoundary ≤ addr.val ∧ RangeOk s addr pages
  | .shmClose id => OneMapping s id
  | .freePages b c => kernelBoundary ≤ b.val → RangeOk s b c
  | _ => True

/-! ### The system calls -/

section

variable {s s' : State}

theorem allocAtLoop_owned (addr pages n : ℕ) (ht : Tables s) (ho : Owned s)
    (h : allocAtLoop addr pages n s = some s') : Tables s' ∧ Owned s' := by
  refine allocAtLoop_rule (fun u => Tables u ∧ Owned u) ?_ addr pages n ⟨ht, ho⟩ h
  rintro u v a ⟨htu, hou⟩ hlt hu hv
  have hF : a / 4096 ≠ u.tableFrame := htu.ne_frame hu
  obtain ⟨htv, f, hnew⟩ := mapNewPageAt_spec htu hlt hF (pagesAtFlags_present a)
    (fun _ => notCachedElsewhere_user hu) hv
  exact ⟨htv, hnew.owned (pagesAtFlags_present a).1 hou⟩

theorem btAllocAt_owned (ht : Tables s) (ho : Owned s) (h : btAllocAt s b c = some s') :
    Tables s' ∧ Owned s' := by
  unfold btAllocAt at h
  split at h
  · cases h
    exact ⟨ht, ho⟩
  · exact allocAtLoop_owned c b b ht ho h

theorem btFreePages_owned (ht : Tables s) (ho : Owned s)
    (hok : kernelBoundary ≤ b → RangeOk s b c) (h : btFreePages s b c = some s') : Tables s' ∧ Owned s' := by
  rw [btFreePages_eq] at h
  split at h
  · rename_i hb
    obtain ⟨hts, hos, -⟩ := freePages_owned ht ho (hok hb) h
    exact ⟨hts, hos⟩
  · cases h
    exact ⟨ht, ho⟩

end

/-! ### The step and the start -/

/-- **The step lemma**: an operation that meets its condition keeps the tables sound and the pages
owned. -/
theorem memStep_owned (ht : Tables s) (ho : Owned s) (hok : MemOk s op)
    (h : memStep s op = some s') : Tables s' ∧ Owned s' := by
  cases op with
  | dir op => exact ⟨dirStep_tables ht hok.1 h, dirStep_owned ht ho hok.1 hok.2 h⟩
  | destroy pid => exact destroyDirectory_owned ht ho hok h
  | shmCreate flags =>
    cases h
    exact shmCreate_owned ht ho hok
  | shmMap id addr offset pages flags =>
    obtain ⟨⟨a, x⟩, hx, rfl⟩ := map_eq_some_iff.1 h
    rcases shmMap_cases hx with ⟨-, rfl⟩ | ⟨hchecks, -⟩
    · exact ⟨ht, ho⟩
    · obtain ⟨hready, hcur, hid, haddr, hrange⟩ := hok hchecks
      exact shmMap_owned ht ho hready hcur hid haddr hrange hx
  | shmCloseMap id => exact shmCloseMap_owned ht ho h
  | shmClose id => exact shmClose_owned ht ho hok h
  | pageFault addr user => exact pageFault_owned ht ho addr.2 h
  | allocAt b c => exact btAllocAt_owned ht ho h
  | freePages b c => exact btFreePages_owned ht ho hok h

variable {d : Pid} {s : State}

theorem boot_maps (h : Maps (boot b) d idx f) :
    d = kernelPid ∧ 0 < idx ∧ idx < b.idmapPages ∧ f = idx * 4096 := by
  have hw := word_of_stored (ne_zero_of_present h.isPresent)
  have hF : idx ≠ b.tableFrame := h.ne
  have hp := h.isPresent
  have ha := h.address
  rw [boot_stored d hw, BootInfo.entry, if_neg hF] at hp ha
  refine ⟨beq_iff_eq.1 h.live, ?_⟩
  by_cases h0 : idx = 0
  · rw [if_pos h0] at hp
    exact absurd hp (by decide)
  · rw [if_neg h0] at hp ha
    by_cases hlt : idx < b.idmapPages
    · rw [if_pos hlt] at ha
      have hle := b.idmapPages_le
      rw [kernelPages] at hle
      refine ⟨Nat.pos_of_ne_zero h0, hlt, ?_⟩
      rw [← ha]
      exact addressOf_or (Nat.mul_mod_left idx 4096) (by rw [pageSize]; omega) bootFlags
    · rw [if_neg hlt] at hp
      exact absurd hp (by decide)

/-- **At boot every page is used as it should be.** -/
theorem boot_owned (b : BootInfo) : Owned (boot b) := by
  refine ⟨?_, ?_, ?_⟩
  · -- the window shows the last table
    have hlast := b.lastTable_mem
    obtain ⟨t, hlt, hget⟩ := mem_iff_getElem.1 hlast
    have hword : (boot b).tableWord kernelPid t = b.lastTable ||| (PageFlag.present ||| PageFlag.writable) := by
      show b.directory t = _
      rw [BootInfo.directory, getElem?_eq_getElem hlt, hget]
    have haddr := addressOf_or (b.aligned _ hlast) (b.table_lt hlast) bootFlags
    have hle := b.length_le
    refine ⟨kernelPid, t, rfl, ?_, ?_, ?_⟩
    · rw [kernelTables] at hle
      omega
    · rw [hword]
      refine ne_zero_of_present ?_
      rw [present_or (b.aligned _ hlast) bootFlags]
      rfl
    · rw [hword, haddr]
      show _ = addressOf ((boot b).frames (addressOf ((boot b).tableWord kernelPid
        (b.tableFrame / 1024))) (b.tableFrame % 1024))
      rw [boot_frames kernelPid (boot_word_of_lt kernelPid b.frame_lt), BootInfo.entry, if_pos rfl, haddr]
  · have hle := b.idmapPages_le
    refine ⟨?_, ?_, ?_, ?_, ?_, ?_, ?_⟩
    · rintro p f ⟨d, idx, rfl, hm⟩
      obtain ⟨-, hpos, hlt, rfl⟩ := boot_maps hm
      exact b.marked idx hpos hlt
    · rintro p f ⟨d, idx, rfl, hm⟩ (⟨e, t, -, hk, htlt, hw, -⟩ | ⟨hp, -⟩)
      · obtain ⟨a, hget, -⟩ := boot_word e t hw
        have := (List.getElem?_eq_some_iff.1 hget).1
        have := b.length_le
        omega
      · obtain ⟨-, -, hlt, -⟩ := boot_maps hm
        exact hp (if_pos (Nat.lt_of_lt_of_le hlt hle))
    · rintro p q f ⟨d, i, rfl, hm⟩ ⟨e, j, rfl, hm'⟩
      obtain ⟨rfl, -, -, hi⟩ := boot_maps hm
      obtain ⟨rfl, -, -, hj⟩ := boot_maps hm'
      have hij : i = j := by omega
      exact .inl (by rw [hij])
    · rintro a f ⟨x, hx, -⟩
      cases hx
    · rintro a f p ⟨x, hx, -⟩
      cases hx
    · rintro p f a - ⟨x, hx, -⟩
      cases hx
    · rintro a c f ⟨x, hx, -⟩
      cases hx
  · refine ⟨rfl, rfl, ?_, ?_, ?_, ?_, ?_, ?_⟩
    · intro d _ r hr
      cases hr
    all_goals
      intro x hx
      cases hx

/-! ### Safety -/

/-- The physical page at `f` is mapped by the entry of page `idx` of `d`. -/
def Refers (s : State) (d : Pid) (idx f : ℕ) : Prop :=
  s.live d = true ∧ idx < 2 ^ 20 ∧ present (storedEntry s d idx) = true ∧ addressOf (storedEntry s d idx) = f

/-- No page that is mapped or held by a space is `Free`, and a page that is mapped in two places is
held by a space or mapped in the kernel half.  There the two places are one page, whose table the
directories share, or one of them is the window on the page tables. -/
structure FramesSafe (s : State) : Prop where
  mapped : ∀ d idx f, Refers s d idx f → ¬IsFree s.physical f
  held : ∀ a f, InSpace s a f → ¬IsFree s.physical f
  exclusive : ∀ d e i j f, Refers s d i f → Refers s e j f → (d = e ∧ i = j) ∨
    (∃ a, InSpace s a f) ∨ (i < kernelPages ∧ j < kernelPages ∧ (i = j ∨ i = s.tableFrame ∨ j = s.tableFrame))

section Safety

variable {s : State}

theorem Refers.isTable (ht : Tables s) (ho : Owned s) (h : Refers s d s.tableFrame f) : IsTable s f := by
  obtain ⟨hd, hlt, hp, rfl⟩ := h
  have hw := word_of_stored (ne_zero_of_present hp)
  have hwin : addressOf (storedEntry s d s.tableFrame) = s.window := by
    rw [ht.stored_of_word hd hlt hw, State.window, ← ht.windowTable_eq hd hw]
    rfl
  rw [hwin]
  exact ho.shows

theorem Refers.maps (h : Refers s d idx f) (hF : idx ≠ s.tableFrame) :
    Maps s d idx f := ⟨h.1, h.2.1, hF, h.2.2.1, h.2.2.2⟩

theorem Refers.kernel_of_isTable (ht : Tables s) (ho : Owned s) (h : Refers s d idx f)
    (htab : IsTable s f) : idx < kernelPages := by
  by_cases hF : idx = s.tableFrame
  · rw [hF]
    exact ht.frame_lt
  · by_contra hk
    have hslot := slot_user d (Nat.not_lt.1 hk)
    refine ho.sound.allowed _ f ⟨d, idx, rfl, h.maps hF⟩ (.inr ⟨?_, htab⟩)
    rw [hslot]
    exact some_ne_none d

/-- **Pages that are owned are safe.** -/
theorem Owned.framesSafe (ht : Tables s) (ho : Owned s) : FramesSafe s := by
  refine ⟨?_, ho.sound.member_used, ?_⟩
  · intro d idx f h
    by_cases hF : idx = s.tableFrame
    · subst hF
      obtain ⟨e, t, he, htlt, hw, rfl⟩ := h.isTable ht ho
      exact ht.inUse e t he htlt hw
    · exact ho.sound.used _ f ⟨d, idx, rfl, h.maps hF⟩
  · intro d e i j f hi hj
    by_cases hiF : i = s.tableFrame
    · subst hiF
      have hk := hj.kernel_of_isTable ht ho (hi.isTable ht ho)
      exact .inr (.inr ⟨ht.frame_lt, hk, .inr (.inl rfl)⟩)
    · by_cases hjF : j = s.tableFrame
      · subst hjF
        have hk := hi.kernel_of_isTable ht ho (hj.isTable ht ho)
        exact .inr (.inr ⟨hk, ht.frame_lt, .inr (.inr rfl)⟩)
      · rcases ho.sound.exclusive _ _ f ⟨d, i, rfl, hi.maps hiF⟩ ⟨e, j, rfl, hj.maps hjF⟩ with
          heq | hshared
        · obtain ⟨rfl, hde | hk⟩ := slot_inj heq
          · exact .inl ⟨hde, rfl⟩
          · exact .inr (.inr ⟨hk, hk, .inl rfl⟩)
        · exact .inr (.inl hshared)

end Safety

/-- **The run lemma.** -/
theorem owned_of_memOk (h : Reach memStep MemOk (boot b) s) : Tables s ∧ Owned s :=
  h.invariant (fun s => Tables s ∧ Owned s) ⟨boot_tables b, boot_owned b⟩
    fun _ _ _ hi hok hs => memStep_owned hi.1 hi.2 hok hs

/-- **No physical page is used twice**: in every run from boot whose steps meet the condition, every
state is safe. -/
theorem framesSafe_of_memOk {b : BootInfo} {s : State} (h : Reach memStep MemOk (boot b) s) : FramesSafe s := by
  obtain ⟨ht, ho⟩ := owned_of_memOk h
  exact ho.framesSafe ht

def processRuns : List MemOp :=
  [.dir (.newDirectory 1 (List.replicate 64 (0, 0))), .dir .startScheduler, .dir (.switchTo 1)]

/-- The process maps the first page of a new space at the start of user space, and touches it. -/
def touchShared : List MemOp := [.shmCreate 0, .shmMap 1 0x40000000 0 1 0, .pageFault 0x40000000 true]

theorem rangeOk_of_absent (ht : Tables s) (hlt : addr < 2 ^ 32) (hu : kernelPages ≤ addr / 4096)
    (habsent : present (storedEntry s s.current (addr / 4096)) = false) : RangeOk s addr 1 := by
  intro i hi u hu'
  have h0 : i = 0 := by omega
  subst h0
  cases hu'
  rw [pageAddr_zero hlt]
  have hpos : 0 < kernelPages := by decide
  refine ⟨⟨ht.ne_frame hu, by omega, notCachedElsewhere_user hu, ?_, ?_⟩, ?_⟩
  all_goals
    intro hp
    rw [habsent] at hp
    cases hp

/-- What can be evaluated, and is enough for the condition: single pages are mapped where no page is. -/
def plain (s : State) : MemOp → Bool
  | .dir (.newDirectory _ _) | .dir .startScheduler | .dir (.switchTo _) | .pageFault _ _ => true
  | .shmCreate _ => decide (s.spaceIdCounter + 1 < 2 ^ 64)
  | .shmMap _ addr _ pages _ => s.schedulerReady && s.current != kernelPid &&
      decide (s.mappingIdCounter + 1 < 2 ^ 64) && decide (kernelBoundary ≤ addr.val) && pages.val == 1 &&
      !present (storedEntry s s.current (addr.val / 4096))
  | _ => false

theorem memOk_of_plain (ht : Tables s) (h : plain s op = true) : MemOk s op := by
  unfold plain at h
  split at h
  · exact ⟨trivial, trivial⟩
  · exact ⟨trivial, trivial⟩
  · exact ⟨trivial, trivial⟩
  · trivial
  · rw [decide_eq_true_eq] at h
    exact h
  · rename_i id addr offset pages flags
    simp only [and_eq_true, bne_iff_ne, beq_iff_eq, decide_eq_true_eq, not_eq_true'] at h
    obtain ⟨⟨⟨⟨⟨hready, hcur⟩, hid⟩, haddr⟩, hone⟩, habsent⟩ := h
    intro _
    have huser : kernelPages ≤ addr.val / 4096 := by
      rw [kernelBoundary] at haddr
      rw [kernelPages]
      omega
    exact ⟨hready, hcur, hid, haddr, by rw [hone]; exact rangeOk_of_absent ht addr.2 huser habsent⟩
  · cases h

theorem guarded_touchShared : Guarded memStep MemOk (boot smallBoot) (processRuns ++ touchShared) := by
  refine Guarded.of_enough (fun s => Tables s ∧ Owned s) (fun s op h => memOk_of_plain h.1)
    (fun _ _ _ h hok hs => memStep_owned h.1 h.2 hok hs) _ _ ⟨boot_tables _, boot_owned _⟩ ?_
  show Guarded memStep (fun s op => plain s op = true) (boot smallBoot) (processRuns ++ touchShared)
  decide +kernel

theorem framesSafe_of_memOk_shared : ∃ s, Reach memStep MemOk (boot smallBoot) s ∧
    (∃ a f, InSpace s a f ∧ Refers s s.current 0x40000 f) ∧ FramesSafe s := by
  obtain ⟨t, hreach, hshared⟩ := Reach.of_exec_check memStep MemOk (processRuns ++ touchShared) (boot smallBoot)
    (fun t => t.live t.current && present (storedEntry t t.current 0x40000) && t.spaces.any fun x =>
      x.2.pages.any (·.2 == addressOf (storedEntry t t.current 0x40000))) guarded_touchShared (by decide +kernel)
  refine ⟨t, hreach, ?_, framesSafe_of_memOk hreach⟩
  simp only [and_eq_true] at hshared
  obtain ⟨⟨hlive, hp⟩, hany⟩ := hshared
  obtain ⟨x, hx, hany⟩ := any_eq_true.1 hany
  obtain ⟨q, hq, heq⟩ := any_eq_true.1 hany
  exact ⟨x.1, q.2, ⟨x, hx, rfl, q, hq, rfl⟩, hlive, by decide, hp, (beq_iff_eq.1 heq).symm⟩

/-- The process then frees the page with `BT_FREE_PAGES`: the page is `Free`, and the space still holds
it. -/
theorem shared_page_freed : ∃ s, Reach memStep anyStep (boot smallBoot) s ∧ ¬FramesSafe s := by
  obtain ⟨s, hreach, hs⟩ := Reach.of_exec_check memStep anyStep
    (processRuns ++ touchShared ++ [.freePages 0x40000000 1]) (boot smallBoot)
    (fun s => s.spaces.any fun x => x.2.pages.any fun q => decide (IsFree s.physical q.2))
    (guarded_anyStep _ _ _) (by decide +kernel)
  refine ⟨s, hreach, fun hsafe => ?_⟩
  obtain ⟨x, hx, hany⟩ := any_eq_true.1 hs
  obtain ⟨q, hq, hfree⟩ := any_eq_true.1 hany
  exact hsafe.held x.1 q.2 ⟨x, hx, rfl, q, hq, rfl⟩ (of_decide_eq_true hfree)

end Btos.Kernel.Mm2
