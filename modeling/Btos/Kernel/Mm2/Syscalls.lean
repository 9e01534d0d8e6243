import Btos.Kernel.Mm2.EntryCache
import Btos.Kernel.Mm2.WrapAround

/-!
# The memory system calls and the kernel half

`BT_ALLOC_PAGES`, `BT_ALLOC_AT`, `BT_FREE_PAGES` and `BT_SHM_MAP` with any register values.  The
first two stay in user space by themselves.  The other two check a pointer, but `free_pages` gets a
page count that nobody has compared with it: `BT_FREE_PAGES` checks a range of size 0, and
`BT_SHM_MAP` a size that is the product of the count and 4096 as a 32-bit word.

* `handle_sameKernelEntries_iff` — **a call leaves the entries of the kernel half as they are exactly
  if it is in range**.

The entry of the window is left out: every look at a page table rewrites it.
-/

namespace Btos.Kernel.Mm2

open Lib.Word Lib.Loop Lib.Transition List Bool

/-- The memory system calls with their registers; `mapping` is what register B of `BT_SHM_MAP` points
to. -/
inductive Syscall where
  | allocPages (b : Word32)
  | allocAt (b c : Word32)
  | freePages (b c : Word32)
  | shmMap (b : Word32) (mapping : BtShmMapping)
  deriving DecidableEq, Repr

def Syscall.handle (s : State) : Syscall → Option State
  | .allocPages b => btAllocPages s b
  | .allocAt b c => btAllocAt s b c
  | .freePages b c => btFreePages s b c
  | .shmMap b mapping => btShmMap s b mapping

/-- The checks of `BT_SHM_MAP` and `shm_map` accept the call. -/
def ShmMapAccepted (s : State) (b : Word32) (m : BtShmMapping) : Prop :=
  ∃ s₁ s₂, isSafePtr s b 4 s.current = some (true, s₁) ∧
    isSafePtr s₁ m.addr (mul32 m.pages pageSize) s₁.current = some (true, s₂) ∧
    shmMapChecks s₂ m.id m.addr m.offset = true

/-- The call is rejected, or its range ends at the top of the address space at the latest. -/
def Syscall.InRange (s : State) : Syscall → Prop
  | .allocPages _ => True
  | .allocAt _ _ => True
  | .freePages b c => b.val < kernelBoundary ∨ b.val / 4096 + c.val ≤ 2 ^ 20
  | .shmMap b m => ShmMapAccepted s b m → m.addr.val / 4096 + m.pages.val ≤ 2 ^ 20

/-- No existing directory has another entry for a page of the kernel half, but for the window's. -/
def SameKernelEntries (s s' : State) : Prop :=
  ∀ d p, s.live d = true → p < kernelPages → p ≠ s.tableFrame → storedEntry s' d p = storedEntry s d p

/-! ### The state in which a call is made -/

/-- User code is running: the kernel half is out of its reach, mapped and with a guard page at 0. -/
structure Running (s : State) : Prop where
  safe : KernelSafe s
  window : s.windowTable s.current ≠ 0
  regions : RegionsOk s
  null : storedEntry s s.current 0 = PageFlag.guardPage
  ready : s.schedulerReady = true
  kernel : ∃ p, p < kernelPages ∧ p ≠ s.tableFrame ∧ present (storedEntry s s.current p) = true

/-- User code is running, and the search for pages of user space starts there. -/
structure UserCall (s : State) : Prop extends Running s where
  hint : kernelPages ≤ (s.dirs s.current).ulowfree

variable {s s' : State}

theorem Running.nullGuarded (h : Running s) : NullGuarded s := by
  rw [NullGuarded, h.null]
  rfl

theorem Running.untouched (h : Running s) (hu : Untouched s s') : Running s' := by
  have hstored : ∀ {p}, p < kernelPages → p ≠ s.tableFrame →
      storedEntry s' s'.current p = storedEntry s s.current p := by
    intro p hp hF
    rw [hu.current]
    exact hu.stored h.safe h.safe.live_current hp hF
  refine ⟨hu.safe, ?_, hu.regionsOk h.regions, ?_, hu.schedulerReady.trans h.ready, ?_⟩
  · rw [hu.current, hu.windowTable h.safe]
    exact h.window
  · rw [hstored (by decide) (Nat.ne_of_lt h.safe.frame_pos)]
    exact h.null
  · obtain ⟨p, hp, hF, hpres⟩ := h.kernel
    refine ⟨p, hp, by rw [hu.tableFrame]; exact hF, ?_⟩
    rw [hstored hp hF]
    exact hpres

theorem Running.anchored (h : Running s) (hp : p < kernelPages) (hF : p ≠ s.tableFrame)
    (hne : storedEntry s s.current p ≠ 0) : Anchored s p := by
  have haddr : addressOf (s.tableWord s.current (p / 1024)) ≠ 0 := by
    intro h0
    exact hne (if_pos h0)
  refine ⟨h.safe.usable.isPresent, h.window, haddr, ?_⟩
  rintro ⟨hf, hj⟩
  have := h.safe.windowOnly _ (kernel_table_iff.2 hp) (ne_zero_of_address haddr) hf
  omega

/-! ### In range -/

theorem Untouched.sameKernelEntries (h : Untouched s s') (hs : KernelSafe s) :
    SameKernelEntries s s' := fun _ _ hd hp hF => h.stored hs hd hp hF

theorem shmRecord_stored (s : State) (id addr offset pages : ℕ) (d : Pid) (idx : ℕ) :
    storedEntry (shmRecord s id addr offset pages) d idx = storedEntry s d idx := by
  have hdir : ∀ r, ((addRegion s s.current r).dirs d).directory = (s.dirs d).directory := by
    intro r
    refine setDir_same PageDirectory.directory ?_ d
    rfl
  have hword : ∀ t, (shmRecord s id addr offset pages).tableWord d t = s.tableWord d t :=
    fun t => congrFun (hdir _) t
  rw [storedEntry, hword]
  rfl

/-- **`shm_map`** on a range that ends at the top at the latest. -/
theorem shmMap_same {id addr offset pages flags a : ℕ} (hs : Running s) (hu : kernelPages ≤ addr / 4096)
    (hle : shmMapChecks s id addr offset = true → addr / 4096 + pages ≤ 2 ^ 20)
    (h : shmMap s id addr offset pages flags = some (a, s')) : SameKernelEntries s s' := by
  rcases shmMap_cases h with ⟨-, rfl⟩ | ⟨hchecks, x, y, hx, hy, rfl⟩
  · exact hs.safe.refl.sameKernelEntries hs.safe
  · have hux := freePages_untouched hs.safe hu (hle hchecks) hx
    have huy := hux.trans hs.safe
      (guardPages_untouched hux.safe (hux.schedulerReady.trans hs.ready) hu hy)
    intro d p hd hp hF
    rw [shmRecord_stored]
    exact huy.stored hs.safe hd hp hF

theorem SameKernelEntries.after (h : SameKernelEntries x s') (hs : KernelSafe s)
    (hu : Untouched s x) : SameKernelEntries s s' := by
  intro d p hd hp hF
  have := h d p (by rw [hu.live]; exact hd) hp (by rw [hu.tableFrame]; exact hF)
  exact this.trans (hu.stored hs hd hp hF)

/-! ### Out of range -/

/-- **`free_pages` past the top** clears the entry of any page of the kernel half that it comes to. -/
theorem freePages_clears (hs : Running s) (hp : p < kernelPages) (hF : p ≠ s.tableFrame)
    (hne : storedEntry s s.current p ≠ 0) (hi : i < pages) (hpage : (addr / 4096 + i) % 2 ^ 20 = p)
    (h : freePages s addr pages = some s') : storedEntry s' s.current p = 0 := by
  refine (freePages_bears (P := fun e => e = 0) rfl (hs.anchored hp hF hne) hi ?_ h).2
  rw [pageAddr_page]
  exact hpage

/-- **`shm_map` of 2^20 pages and more** unmaps every page of the kernel half. -/
theorem shmMap_clears {id addr offset pages flags a p : ℕ} (hs : Running s)
    (hchecks : shmMapChecks s id addr offset = true) (haddr : addr < 2 ^ 32) (hpages : 2 ^ 20 ≤ pages)
    (hp : p < kernelPages) (hF : p ≠ s.tableFrame) (hpres : present (storedEntry s s.current p) = true)
    (h : shmMap s id addr offset pages flags = some (a, s')) :
    present (storedEntry s' s.current p) = false := by
  obtain ⟨-, x, y, hx, hy, rfl⟩ := (shmMap_cases h).resolve_left (by simp [hchecks])
  have hanch := hs.anchored hp hF (ne_zero_of_present hpres)
  -- the turn that frees page `p`
  have hturn : (addr / 4096 + (p + 2 ^ 20 - addr / 4096) % 2 ^ 20) % 2 ^ 20 = p := by
    rw [kernelPages] at hp
    omega
  obtain ⟨hbx, hzero⟩ := freePages_bears (P := fun e => present e = false) rfl hanch
    (show (p + 2 ^ 20 - addr / 4096) % 2 ^ 20 < pages by omega)
    (by rw [pageAddr_page]; exact hturn) hx
  have hby := guardPages_bears (hbx.anchored hanch) (hbx.schedulerReady.trans hs.ready) hy
  rw [shmRecord_stored]
  have hkeep := hby.keeps
  rw [hbx.current] at hkeep
  exact hkeep hzero

/-- A call of `shm_map` that is accepted and goes past the top asks for 2^20 pages at least: its
pointer check goes page by page, and would have come to the guard page at 0. -/
theorem pages_of_accepted {addr : Word32} {id offset : ℕ} {pages : Word32} (hs : Running s)
    (hsafe : isSafePtr s addr (mul32 pages pageSize) s.current = some (true, x))
    (hchecks : shmMapChecks x id addr offset = true)
    (hout : ¬addr.val / 4096 + pages.val ≤ 2 ^ 20) : 2 ^ 20 ≤ pages.val := by
  by_contra hlt
  have halign := (of_shmMapChecks hchecks).2
  have hsize : mul32 pages pageSize = pages.val * 4096 :=
    Nat.mod_eq_of_lt (by rw [pageSize]; omega)
  have hwrap : 2 ^ 32 < addr.val + mul32 pages pageSize := by
    omega
  cases isSafePtr_wrap hs.safe hs.regions hs.nullGuarded addr.2 halign hwrap hsafe

/-! ### The calls -/

section

variable {s s' : State}

theorem btAllocPages_same (hs : UserCall s) (h : btAllocPages s b = some s') : SameKernelEntries s s' := by
  obtain ⟨⟨a, x⟩, hx, rfl⟩ := Option.map_eq_some_iff.1 h
  exact (alloc_untouched hs.safe hs.hint hx).sameKernelEntries hs.safe

theorem btAllocAt_same (hs : UserCall s) (h : btAllocAt s b c = some s') : SameKernelEntries s s' := by
  unfold btAllocAt at h
  split at h
  · cases h
    exact hs.safe.refl.sameKernelEntries hs.safe
  · exact (allocAtLoop_untouched c b b hs.safe h).sameKernelEntries hs.safe

theorem btFreePages_same_iff {b c : Word32} (hs : Running s) (h : btFreePages s b c = some s') :
    SameKernelEntries s s' ↔ (b.val < kernelBoundary ∨ b.val / 4096 + c.val ≤ 2 ^ 20) := by
  rw [btFreePages_eq] at h
  split at h
  · rename_i hb
    have hF := Nat.ne_of_lt hs.safe.frame_pos
    constructor
    · intro hsame
      refine .inr (Nat.not_lt.1 fun hout => ?_)
      -- turn number `2^20 - b / 4096` frees the guard page
      have hzero := freePages_clears (i := 2 ^ 20 - b.val / 4096) hs (by decide) hF (by rw [hs.null]; decide)
        (by omega) (by omega) h
      have hold := hsame s.current 0 hs.safe.live_current (by decide) hF
      rw [hzero, hs.null] at hold
      exact absurd hold (by decide)
    · intro hrange
      exact (freePages_untouched hs.safe (user_page_iff.2 hb) (hrange.resolve_left (Nat.not_lt.2 hb)) h).sameKernelEntries
        hs.safe
  · rename_i hb
    cases h
    exact iff_of_true (hs.safe.refl.sameKernelEntries hs.safe) (.inl (Nat.not_le.1 hb))

theorem btShmMap_same_iff {b : Word32} {m : BtShmMapping} (hs : Running s)
    (h : btShmMap s b m = some s') : SameKernelEntries s s' ↔
      (ShmMapAccepted s b m → m.addr.val / 4096 + m.pages.val ≤ 2 ^ 20) := by
  obtain ⟨⟨ok1, s1⟩, h1, h⟩ := Option.bind_eq_some_iff.1 h
  have hu1 := (isSafePtr_untouched hs.safe hs.regions hs.nullGuarded b.2 h1).1
  have hs1 := hs.untouched hu1
  cases ok1 with
  | false =>
    cases h
    refine iff_of_true (hu1.sameKernelEntries hs.safe) ?_
    rintro ⟨x, y, hx, -, -⟩
    cases h1.symm.trans hx
  | true =>
    obtain ⟨⟨ok2, s2⟩, h2, h⟩ := Option.bind_eq_some_iff.1 h
    obtain ⟨hu2, huser⟩ := isSafePtr_untouched hs1.safe hs1.regions hs1.nullGuarded m.addr.2 h2
    have hu := hu1.trans hs.safe hu2
    have hs2 := hs.untouched hu
    cases ok2 with
    | false =>
      cases h
      refine iff_of_true (hu.sameKernelEntries hs.safe) ?_
      rintro ⟨x, y, hx, hy, -⟩
      cases h1.symm.trans hx
      cases h2.symm.trans hy
    | true =>
      obtain ⟨⟨a, t⟩, hmap, rfl⟩ := Option.map_eq_some_iff.1 h
      constructor
      · rintro hsame ⟨x, y, hx, hy, hchecks⟩
        cases h1.symm.trans hx
        cases h2.symm.trans hy
        by_contra hout
        have hpages := pages_of_accepted hs1 h2 hchecks hout
        obtain ⟨p, hp, hF, hpres⟩ := hs.kernel
        have hold := hu.stored hs.safe hs.safe.live_current hp hF
        have hclear := shmMap_clears hs2 hchecks m.addr.2 hpages hp
          (by rw [hu.tableFrame]; exact hF) (by rw [hu.current, hold]; exact hpres) hmap
        have hsame' := hsame s.current p hs.safe.live_current hp hF
        rw [hu.current, hsame', hpres] at hclear
        cases hclear
      · intro hrange
        exact (shmMap_same hs2 (huser rfl) (fun hchecks => hrange ⟨s1, s2, h1, h2, hchecks⟩)
          hmap).after hs.safe hu

/-- **A call leaves the entries of the kernel half as they are exactly if it is in range.** -/
theorem handle_sameKernelEntries_iff (hs : UserCall s) {call : Syscall}
    (h : call.handle s = some s') : SameKernelEntries s s' ↔ call.InRange s := by
  cases call with
  | allocPages b => exact iff_of_true (btAllocPages_same hs h) trivial
  | allocAt b c => exact iff_of_true (btAllocAt_same hs h) trivial
  | freePages b c => exact btFreePages_same_iff hs.toRunning h
  | shmMap b m => exact btShmMap_same_iff hs.toRunning h

end

/-! ### A process that has no memory yet -/

theorem Tables.kernelSafe (ht : Tables s)
    (hentries : ∀ idx, kernelPages ≤ idx → idx < 2 ^ 20 → Harmless s (storedEntry s s.current idx))
    (hspaces : ∀ p ∈ s.spaces, ∀ q ∈ p.2.pages, (q.2 % 4096 = 0 ∧ q.2 < 2 ^ 32) ∧ ¬KernelTable s q.2) :
    KernelSafe s := by
  have hk : ∀ {t}, t < kernelTables → t < 1024 := fun h => Nat.lt_trans h (by decide)
  refine ⟨ht.frame_pos, ht.frame_lt, ht.live_current, ht.usable, ?_, ht.shared, ?_, ?_, hentries, ?_, hspaces⟩
  · intro t hlt hw hwin
    exact (ht.apart _ _ _ _ ht.live_current ht.live_current (hk hlt) (hk ht.windowIndex_lt) hw
      ht.windowed hwin).1
  · rintro f ⟨t, hlt, hw, rfl⟩
    exact ht.inUse _ t ht.live_current (hk hlt) hw
  · intro t hge hlt hw
    refine ⟨(ht.words _ t ht.live_current hlt hw).2, ?_⟩
    rintro ⟨u, hu, hwu, heq⟩
    have := (ht.apart _ _ _ _ ht.live_current ht.live_current (hk hu) hlt hwu hw heq).1
    omega
  · intro c hc hge
    by_cases he : c.entry = 0
    · rw [he]
      exact harmless_zero s
    · have hpos : c.index ≠ 0 := by
        rw [kernelPages] at hge
        omega
      rcases ht.cached _ ht.live_current c hc he hpos with ⟨hF, -⟩ | ⟨-, hlt, heq⟩
      · exact absurd ht.frame_lt (Nat.not_lt.2 (hF ▸ hge))
      · rw [heq]
        exact hentries _ hge hlt

/-- What is checked of a process that has just been made. -/
def freshProcess (s : State) : Bool :=
  (List.range 768).all (fun t => s.tableWord s.current (kernelTables + t) == 0) &&
    s.spaces.isEmpty && (s.dirs s.current).regions.isEmpty && s.schedulerReady &&
    s.tableFrame == 2 && storedEntry s s.current 0 == PageFlag.guardPage &&
    present (storedEntry s s.current 1) && decide (kernelPages ≤ (s.dirs s.current).ulowfree)

theorem Tables.userCall (ht : Tables s) (h : freshProcess s = true) : UserCall s := by
  simp only [freshProcess, and_eq_true, beq_iff_eq, List.isEmpty_iff, decide_eq_true_eq,
    all_eq_true, mem_range] at h
  obtain ⟨⟨⟨⟨⟨⟨⟨hwords, hspaces⟩, hregions⟩, hready⟩, hF⟩, hnull⟩, hpres⟩, hhint⟩ := h
  have hsafe : KernelSafe s := by
    refine ht.kernelSafe ?_ ?_
    · intro idx hge hlt
      have h0 := hwords (idx / 1024 - kernelTables) (by simp only [kernelTables]; omega)
      rw [Nat.add_sub_cancel' (Nat.not_lt.1 (mt kernel_table_iff.1 (Nat.not_lt.2 hge)))] at h0
      rw [stored_of_no_word h0]
      exact harmless_zero s
    · rw [hspaces]
      simp
  refine ⟨⟨hsafe, ?_, ?_, hnull, hready, 1, by decide, by rw [hF]; decide, hpres⟩, hhint⟩
  · exact (ht.words _ _ ht.live_current (Nat.lt_trans ht.windowIndex_lt (by decide)) ht.windowed).2
  · rw [RegionsOk, hregions]
    simp

def firstProcess : List DirOp := [.newDirectory 1 (List.replicate 64 (0, 0)), .startScheduler, .switchTo 1]

theorem exists_userCall (p : State → Bool)
    (h : (exec dirStep (boot smallBoot) firstProcess).map (fun s => freshProcess s && p s) = some true) :
    ∃ s, UserCall s ∧ p s = true := by
  obtain ⟨s, hreach, hs⟩ := Reach.of_exec_check dirStep DirOk firstProcess (boot smallBoot)
    (fun s => freshProcess s && p s) (guarded_of_forall _ _ _ (by simp [firstProcess, DirOk]) _) h
  rw [and_eq_true] at hs
  exact ⟨s, (tables_of_dirOk hreach).userCall hs.1, hs.2⟩

/-- Freeing the first page of user space. -/
theorem handle_sameKernelEntries_firstProcess : ∃ s s', UserCall s ∧
    Syscall.handle s (.freePages 0x40000000 1) = some s' ∧ SameKernelEntries s s' := by
  obtain ⟨s, hcall, hs⟩ := exists_userCall
    (fun s => (Syscall.handle s (.freePages 0x40000000 1)).isSome) (by decide +kernel)
  obtain ⟨s', hs'⟩ := Option.isSome_iff_exists.1 hs
  exact ⟨s, s', hcall, hs', (handle_sameKernelEntries_iff hcall hs').2 (.inr (by decide))⟩

/-- `BT_FREE_PAGES` with the last page of the address space and a count of two: the second page is that
at address 0, whose guard entry is cleared. -/
theorem freePages_clears_null : ∃ s s', UserCall s ∧
    Syscall.handle s (.freePages 0xFFFFF000 2) = some s' ∧ ¬SameKernelEntries s s' := by
  obtain ⟨s, hcall, hs⟩ := exists_userCall (fun s => (Syscall.handle s (.freePages 0xFFFFF000 2)).map
    (fun s' => storedEntry s' s.current 0 == 0) == some true) (by decide +kernel)
  obtain ⟨s', hs', hzero⟩ := Option.map_eq_some_iff.1 (beq_iff_eq.1 hs)
  refine ⟨s, s', hcall, hs', fun hsame => ?_⟩
  have hold := hsame s.current 0 hcall.safe.live_current (by decide) (Nat.ne_of_lt hcall.safe.frame_pos)
  rw [beq_iff_eq.1 hzero, hcall.null] at hold
  exact absurd hold (by decide)

end Btos.Kernel.Mm2
