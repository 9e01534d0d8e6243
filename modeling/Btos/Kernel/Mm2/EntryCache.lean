import Btos.Lib.Transition
import Btos.Kernel.Mm2.Boot

/-!
# The entry cache is not observable

All directories share the tables of the kernel half, and each has a cache of its own, which only its
own writes clear.  So a directory that has looked at a page of the kernel half still has the old
entry after *another* directory has changed it: `stale_entry` is such a run.

* `getTableEntry_eq_stored` — **in every run whose steps meet it, `get_table_entry` returns the
  stored entry**, for every page but the window's, whose entry changes with every look at a table.
-/

namespace Btos.Kernel.Mm2

open Lib.Word Lib.Loop Lib.Transition Option

/-- The operations.  `look` is any function that only looks an entry up, such as `virt2phys`. -/
inductive DirOp where
  | alloc (pages : ℕ) (mode : AllocMode)
  | allocPagesAt (pages : ℕ) (baseaddr : Word32)
  | mapPageAt (addr : Word32) (page : PageAddress) (flags : ℕ)
  | mapNewPageAt (addr : Word32) (flags : ℕ)
  | freePages (addr : Word32) (pages : ℕ)
  | guardPageAt (ptr : Word32)
  | look (addr : Word32)
  | switchTo (pid : Pid)
  | newDirectory (pid : Pid) (rest : List (ℕ × ℕ))
  | startScheduler

def dirStep (s : State) : DirOp → Option State
  | .alloc pages mode => (alloc s pages mode).map Prod.snd
  | .allocPagesAt pages baseaddr => allocPagesAt s pages baseaddr
  | .mapPageAt addr page flags => mapPageAt s addr page flags
  | .mapNewPageAt addr flags => mapNewPageAt s addr flags
  | .freePages addr pages => freePages s addr pages
  | .guardPageAt ptr => guardPageAt s ptr
  | .look addr => some (virt2phys s s.current addr).2
  | .switchTo pid => if s.live pid then some (mm2Switch s pid) else none
  | .newDirectory pid rest => newDirectory s pid rest
  | .startScheduler => some { s with schedulerReady := true }

/-- No other directory has an entry for the kernel page in its cache. -/
def Uncached (s : State) (idx : ℕ) : Prop := NotCachedElsewhere s idx 0

theorem Uncached.notCachedElsewhere (h : Uncached s idx) (e : ℕ) : NotCachedElsewhere s idx e := by
  intro hpos hk d hd hne c hc hi
  have h0 := h hpos hk d hd hne c hc hi
  exact .inl (h0.elim id id)

/-- The condition on an operation, in the state before it; for `free_pages`, before each turn. -/
def DirOk (s : State) : DirOp → Prop
  | .allocPagesAt pages baseaddr => ∀ i < pages,
      pageAddr baseaddr i / 4096 ≠ s.tableFrame ∧ Uncached s (pageAddr baseaddr i / 4096)
  | .mapPageAt addr page flags => addr.1 / 4096 ≠ s.tableFrame ∧ PresentFlags flags ∧
      NotCachedElsewhere s (addr.1 / 4096) (page ||| flags)
  | .mapNewPageAt addr flags => addr.1 / 4096 ≠ s.tableFrame ∧ PresentFlags flags ∧
      Uncached s (addr.1 / 4096)
  | .freePages addr pages => ∀ i < pages, ∀ u, turns (freeTurn addr) i s = some u →
      FreeTurnOk u (pageAddr addr i / 4096)
  | .guardPageAt ptr => GuardOk s (ptr.1 / 4096)
  | _ => True

/-! ### Each operation keeps the tables sound -/

/-- **The rule for `alloc_pages_at`**: sound tables stay sound, and so does what new pages keep. -/
theorem allocPagesAt_rule (I : State → Prop) (ht : Tables s)
    (h₀ : I s) (hok : ∀ i < pages, pageAddr baseaddr i / 4096 ≠ s.tableFrame ∧
      Uncached s (pageAddr baseaddr i / 4096))
    (hstep : ∀ u v idx f, Tables u → I u → NewPage u v idx f (pagesAtFlags baseaddr) → I v)
    (h : allocPagesAt s pages baseaddr = some s') : Tables s' ∧ I s' := by
  -- the turns keep the window's page and the caches of the others
  have key := mapNew_rule (pagesAtFlags_present baseaddr)
    (fun _ u => (∀ i < pages, pageAddr baseaddr i / 4096 ≠ u.tableFrame ∧
      Uncached u (pageAddr baseaddr i / 4096)) ∧ I u) ht ⟨hok, h₀⟩
    (fun i _ => pageAddr_lt baseaddr i) ?_ ?_ h
  · exact ⟨key.1, key.2.2⟩
  · intro i hi u _ hu
    exact ⟨(hu.1 i hi).1, (hu.1 i hi).2.notCachedElsewhere⟩
  · intro i _ u v f htu hu _ hnew
    refine ⟨fun j hj => ⟨?_, hnew.written.notCachedElsewhere (hu.1 j hj).2⟩, hstep u v _ f htu hu.2 hnew⟩
    rw [hnew.written.kept.tableFrame]
    exact (hu.1 j hj).1

theorem freePages_tables (ht : Tables s) (hok : ∀ i < pages, ∀ u, turns (freeTurn addr) i s = some u →
      FreeTurnOk u (pageAddr addr i / 4096)) (h : freePages s addr pages = some s') : Tables s' :=
  (free_rule (fun _ _ => True) ht trivial (fun i hi u hu _ _ => hok i hi u hu)
    (fun _ _ _ _ _ _ _ _ _ => trivial) h).1

theorem look_quiet (ht : Tables s) (haddr : addr < 2 ^ 32) : Quiet s (virt2phys s s.current addr).2 :=
  ht.getTableEntry_quiet ht.live_current (show addr / 4096 < 2 ^ 20 by omega)

theorem alloc_lt (ht : Tables s) (h : alloc s pages mode = some (a, s')) : a < 2 ^ 32 := by
  obtain ⟨first, y, hs, ⟨-, rfl, -⟩ | ⟨h0, rfl, -⟩⟩ := alloc_cases ht h
  · decide
  · have hb := hs.bound h0
    rw [totalPages] at hb
    omega

theorem newDirectory_tables (ht : Tables s) (h : newDirectory s pid rest = some s') : Tables s' := by
  obtain ⟨hpid, h⟩ := ite_none_left_eq_some.1 h
  obtain ⟨⟨a, x⟩, hx, h⟩ := bind_eq_some_iff.1 h
  obtain ⟨htx, hk⟩ := alloc_spec ht hx
  split at h
  · cases h
  · have hq := look_quiet htx (alloc_lt ht hx)
    cases h
    refine addDirectory_tables (htx.quiet hq) ?_ (fun _ => rfl) ?_
    · rw [hq.live, hk.live]
      exact eq_false_of_ne_true hpid
    · intro c hc
      obtain ⟨p, -, rfl⟩ := List.mem_map.1 hc
      rfl

/-- **The step lemma.** -/
theorem dirStep_tables (ht : Tables s) (hok : DirOk s op) (h : dirStep s op = some s') : Tables s' := by
  cases op with
  | alloc pages mode =>
    obtain ⟨⟨a, x⟩, hx, rfl⟩ := map_eq_some_iff.1 h
    exact (alloc_spec ht hx).1
  | allocPagesAt pages baseaddr =>
    exact (allocPagesAt_rule (fun _ => True) ht trivial hok (fun _ _ _ _ _ _ _ => trivial) h).1
  | mapPageAt addr page flags =>
    exact (mapPageAt_spec ht addr.2 hok.1 page.2.1 hok.2.1 hok.2.2 h).1
  | mapNewPageAt addr flags =>
    exact (mapNewPageAt_spec ht addr.2 hok.1 hok.2.1 hok.2.2.notCachedElsewhere h).1
  | freePages addr pages => exact freePages_tables ht hok h
  | guardPageAt ptr => exact (guardPageAt_spec ht ptr.2 hok h).1
  | look addr =>
    cases h
    exact ht.quiet (look_quiet ht addr.2)
  | switchTo pid =>
    simp only [dirStep] at h
    split at h
    · rename_i hlive
      cases h
      exact (mm2Switch_spread ht hlive).tables ht
    · cases h
  | newDirectory pid rest => exact newDirectory_tables ht h
  | startScheduler =>
    cases h
    have hc : Carried s { s with schedulerReady := true } :=
      ⟨⟨rfl, rfl, rfl⟩, fun _ _ => rfl, fun _ => rfl, fun _ => rfl, fun _ _ => id⟩
    exact hc.tables ht

theorem tables_of_dirOk (h : Reach dirStep DirOk (boot b) s) : Tables s :=
  h.invariant Tables (boot_tables b) fun _ _ _ => dirStep_tables

/-- **The cache is not observable**: in every run from boot whose steps meet the condition,
`get_table_entry` on the current directory returns the stored entry. -/
theorem getTableEntry_eq_stored {b : BootInfo} {s : State} (h : Reach dirStep DirOk (boot b) s)
    {idx : ℕ} (hidx : idx < 2 ^ 20) (hF : idx ≠ s.tableFrame) :
    (getTableEntry s s.current idx).1 = storedEntry s s.current idx := by
  have ht := tables_of_dirOk h
  exact ht.getTableEntry_eq ht.live_current ht.windowed hidx hF

/-- A second directory is made, and it allocates a page after the kernel has. -/
def twoDirectories : List DirOp :=
  [.newDirectory 1 (List.replicate 64 (0, 0)), .alloc 1 .kernel, .switchTo 1, .alloc 1 .kernel]

theorem getTableEntry_eq_stored_twoDirectories : ∃ s, Reach dirStep DirOk (boot smallBoot) s ∧
    s.current = 1 ∧ present (storedEntry s s.current 5) = true ∧
    (getTableEntry s s.current 5).1 = storedEntry s s.current 5 := by
  obtain ⟨s, hreach, hs⟩ := Reach.of_exec_check dirStep DirOk twoDirectories (boot smallBoot)
    (fun s => s.current == 1 && s.tableFrame == 2 && present (storedEntry s s.current 5))
    (guarded_of_forall _ _ _ (by simp [twoDirectories, DirOk]) _) (by decide +kernel)
  simp only [Bool.and_eq_true, beq_iff_eq] at hs
  exact ⟨s, hreach, hs.1.1, hs.2, getTableEntry_eq_stored hreach (by decide) (by rw [hs.1.2]; decide)⟩

/-- While it searched, directory 1 has looked at page 5.  The kernel's directory frees that page; for
directory 1 it is still mapped. -/
theorem stale_entry : ∃ s, Reach dirStep anyStep (boot smallBoot) s ∧ 5 ≠ s.tableFrame ∧
    (getTableEntry s s.current 5).1 ≠ storedEntry s s.current 5 := by
  obtain ⟨s, hreach, hs⟩ := Reach.of_exec_check dirStep anyStep
    (twoDirectories ++ [.switchTo 0, .freePages 0x5000 1, .switchTo 1]) (boot smallBoot)
    (fun s => 5 != s.tableFrame && (getTableEntry s s.current 5).1 != storedEntry s s.current 5)
    (guarded_anyStep _ _ _) (by decide +kernel)
  simp only [Bool.and_eq_true, bne_iff_ne] at hs
  exact ⟨s, hreach, hs⟩

end Btos.Kernel.Mm2
