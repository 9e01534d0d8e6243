import Btos.Kernel.Mm2.KernelHalf

/-!
# The memory manager at work in user space

The operations of a page directory on addresses of user space, page faults there and the pointer check: **all of
them leave the kernel half untouched**.  The addresses of `is_safe_ptr` wrap: past the top it comes to the guard page
at address 0, where no region is, and stops.

* `alloc_untouched`, `freePages_untouched`, `guardPages_untouched`, `allocAtLoop_untouched` — the loops, by the rule
  `untouched_turns`;
* `handlePf_untouched`, `resolveAddr_untouched`, `isSafePtr_untouched` — what maps pages on its way.
-/

namespace Btos.Kernel.Mm2

open Lib.Word Lib.Loop Lib.Lists List Option

/-! ### Bookkeeping -/

section

variable {s : State}

theorem Noted.untouched (h : Noted s s') (hs : KernelSafe s) : Untouched s s' := by
  refine hs.aside h.kept.toStays h.kept.schedulerReady (h.kept.regions _)
    (by rw [h.physical]; exact hs.inUse) ?_ ?_ (by rw [h.rest]) h.carried.directory
  · rw [h.carried.entrycache]
    exact hs.cached
  · rw [h.kept.spaces]
    exact hs.spaces

theorem releaseEntry_untouched (hs : KernelSafe s) (he : Harmless s e) : Untouched s (releaseEntry s e) := by
  rw [releaseEntry_eq]
  refine hs.physical fun f hf hfree => ?_
  rcases releaseEntry_free hfree with hfree | ⟨hp, rfl⟩
  · exact hs.inUse f hf hfree
  · exact he hp hf

theorem Allocated.untouched (h : Allocated s.physical f ph)
    (hs : KernelSafe s) : Untouched s { s with physical := ph } ∧ ¬KernelTable s f :=
  ⟨hs.physical fun g hg hfree => hs.inUse g hg ((h.free_iff g).1 hfree).1,
    fun hkt => hs.inUse f hkt h.wasFree⟩

end

/-- **The loop rule.** -/
theorem untouched_turns (hs : KernelSafe s)
    (hstep : ∀ i < n, ∀ u v, Untouched s u → turn i u = some v → Untouched u v)
    (h : turns turn n s = some t) : Untouched s t := by
  refine turns_invariant (fun _ u => Untouched s u) hs.refl n ?_ h
  intro i hi u v _ hu hv
  exact hu.trans hs (hstep i hi u v hu hv)

/-! ### One page -/

section

variable {s s' : State}

section

variable (hs : KernelSafe s) (haddr : addr < 2 ^ 32) (hu : kernelPages ≤ addr / 4096)
include hs haddr hu

/-- **A page is mapped.** -/
theorem mapPageAt_untouched (hp : page % 4096 = 0 ∧ page < 2 ^ 32) (hflags : flags < 4096)
    (hnot : ¬KernelTable s page) (h : mapPageAt s addr page flags = some s') : Untouched s s' := by
  obtain ⟨x, hx, rfl⟩ := map_eq_some_iff.1 h
  have he : Harmless s (page ||| flags) := by
    intro _
    rw [addressOf_or hp.1 hp.2 hflags]
    exact hnot
  have hux := setTableEntry_untouched hs hu (by omega) he hx
  exact hux.trans hs ((count_noted _ addr _).untouched hux.safe)

theorem clearPage_untouched (h : clearPage s addr = some s') : Untouched s s' := by
  have hidx : addr / 4096 < 2 ^ 20 := by omega
  simp only [clearPage] at h
  split at h
  · rename_i hp
    cases h
    exact hs.zeroFrame (hs.entries _ hu hidx hp)
  · cases h

/-- **A new page is mapped.** -/
theorem mapNewPageAt_untouched (hflags : flags < 4096)
    (h : mapNewPageAt s addr flags = some s') : Untouched s s' := by
  rw [← addressOf_div haddr] at hu
  obtain ⟨⟨f, ph⟩, halloc, h⟩ := bind_eq_some_iff.1 h
  obtain ⟨x, hx, hclear⟩ := bind_eq_some_iff.1 h
  have ha := physicalAlloc_spec halloc
  obtain ⟨htaken, hnot⟩ := ha.untouched hs
  have hmap := mapPageAt_untouched htaken.safe (addressOf_lt addr) hu ⟨ha.aligned, ha.lt⟩ hflags
    (fun hkt => hnot ((htaken.kernelTable f).1 hkt)) hx
  have hux := htaken.trans hs hmap
  exact hux.trans hs (clearPage_untouched hux.safe (addressOf_lt addr) hu hclear)

end

/-- **A page is freed.** -/
theorem freeTurn_untouched (hs : KernelSafe s)
    (hu : kernelPages ≤ pageAddr addr i / 4096) (h : freeTurn addr i s = some s') : Untouched s s' := by
  have haddr := pageAddr_lt addr i
  simp only [freeTurn, pageSize] at h
  generalize pageAddr addr i = a at h hu haddr
  have hidx : a / 4096 < 2 ^ 20 := by omega
  have h1 := (lowerHint_noted s (a / 4096)).untouched hs
  generalize lowerHint s (a / 4096) = s1 at h h1
  obtain ⟨h2, hval, -⟩ := getTableEntry_untouched h1.safe hidx (.inl hu)
  generalize getTableEntry s1 s1.current (a / 4096) = r at h h2 hval
  have h3 := h2.trans h1.safe (releaseEntry_untouched h2.safe ((h2.harmless _).2 (hval hu)))
  obtain ⟨x, hx, rfl⟩ := map_eq_some_iff.1 h
  rw [← h3.current] at hx
  have hux := (h1.trans hs h3).trans hs
    (setTableEntry_untouched h3.safe hu hidx (harmless_zero _) hx)
  exact hux.trans hs ((count_noted _ a _).untouched hux.safe)

/-- The flags of a guard page leave the `Present` bit as it is. -/
theorem present_or_guardPage (e : ℕ) : present (e ||| PageFlag.guardPage) = present e := by
  have hand : (e ||| PageFlag.guardPage) &&& PageFlag.present = e &&& PageFlag.present := by
    rw [Nat.and_or_distrib_right]
    exact Nat.or_zero _
  rw [present, present, hand]

/-- **A guard page is set**, with the scheduler running. -/
theorem guardPageAt_untouched (hs : KernelSafe s) (hready : s.schedulerReady = true)
    (hptr : ptr < 2 ^ 32) (hu : kernelPages ≤ ptr / 4096) (h : guardPageAt s ptr = some s') :
    Untouched s s' := by
  have hidx : ptr / 4096 < 2 ^ 20 := by omega
  obtain ⟨hget, -, -⟩ := getTableEntry_untouched hs hidx (.inl hu)
  simp only [guardPageAt, pageSize, hready, if_true] at h
  generalize getTableEntry s s.current (ptr / 4096) = r at h hget
  obtain ⟨hp, h⟩ := ite_none_left_eq_some.1 h
  rw [← hget.current] at h
  refine hget.trans hs (setTableEntry_untouched hget.safe hu hidx ?_ h)
  intro hpres
  rw [present_or_guardPage] at hpres
  exact absurd hpres hp

end

/-! ### Loops -/

section

variable {s s' : State}

/-- **`free_pages`** on a range that ends at the top of the address space at the latest. -/
theorem freePages_untouched (hs : KernelSafe s) (hu : kernelPages ≤ addr / 4096)
    (hle : addr / 4096 + pages ≤ 2 ^ 20) (h : freePages s addr pages = some s') : Untouched s s' := by
  refine untouched_turns hs ?_ h
  intro i hi u v hsu hv
  refine freeTurn_untouched hsu.safe ?_ hv
  rw [pageAddr_page]
  omega

theorem guardPages_untouched (hs : KernelSafe s) (hready : s.schedulerReady = true)
    (hu : kernelPages ≤ addr / 4096)
    (h : turns (fun i s => guardPageAt s (addr + i * pageSize)) (rangeTurns addr pages) s = some s') :
    Untouched s s' := by
  refine untouched_turns hs ?_ h
  intro i hi u v hsu hv
  have hlt := lt_of_lt_rangeTurns hi
  exact guardPageAt_untouched hsu.safe (hsu.schedulerReady.trans hready) hlt (by omega) hv

/-- A search for `pages` pages of user space ends in `r`: it finds none or a run of them. -/
structure SearchedUser (s : State) (pages : ℕ) (r : ℕ × State) : Prop where
  untouched : Untouched s r.2
  run : r.1 = 0 ∨ (kernelPages ≤ r.1 ∧ r.1 + pages ≤ totalPages)

theorem SearchedUser.after (h : SearchedUser x pages r)
    (hs : KernelSafe s) (hx : Untouched s x) : SearchedUser s pages r :=
  ⟨hx.trans hs h.untouched, h.run⟩

theorem allocSearch_untouched (pages : ℕ) (mode : AllocMode) (fuel : ℕ) :
    ∀ (pageno found firstpage : ℕ) (s : State), KernelSafe s → kernelPages ≤ pageno →
      pageno + fuel ≤ totalPages →
      ((found = 0 ∧ firstpage = 0) ∨ (kernelPages ≤ firstpage ∧ firstpage + found = pageno)) →
      SearchedUser s pages (allocSearch pages mode fuel pageno found firstpage s) := by
  induction fuel with
  | zero =>
    intro pageno found firstpage s hs _ _ _
    exact ⟨hs.refl, .inl rfl⟩
  | succ fuel ih =>
    intro pageno found firstpage s hs hu hlt hfound
    have hidx : pageno < 2 ^ 20 := by
      rw [totalPages] at hlt
      omega
    obtain ⟨hget, -, -⟩ := getTableEntry_untouched hs hidx (.inl hu)
    have hstate : (isAvailable s s.current pageno).2 = (getTableEntry s s.current pageno).2 := rfl
    simp only [allocSearch]
    rw [hstate]
    generalize (getTableEntry s s.current pageno).2 = x at hget
    split
    · -- the run goes on
      have hpos : firstpage ≠ 0 ∨ found = 0 := by
        rcases hfound with h | h
        · exact .inr h.1
        · left
          rw [kernelPages] at h
          omega
      have hnext : kernelPages ≤ (if firstpage = 0 then pageno else firstpage) ∧
          (if firstpage = 0 then pageno else firstpage) + (found + 1) = pageno + 1 := by
        split
        · omega
        · omega
      split
      · refine ⟨hget, .inr ⟨hnext.1, ?_⟩⟩
        show (if firstpage = 0 then pageno else firstpage) + pages ≤ totalPages
        omega
      · exact (ih _ _ _ x hget.safe (by omega) (by omega) (.inr hnext)).after hs hget
    · have hraise := hget.trans hs ((raiseHint_noted x pages pageno mode).untouched hget.safe)
      generalize raiseHint x pages pageno mode = y at hraise
      split
      · exact ⟨hraise, .inl rfl⟩
      · exact (ih _ _ _ y hraise.safe (by omega) (by omega) (.inl ⟨rfl, rfl⟩)).after hs hraise

/-- **`alloc`** of pages of user space. -/
theorem alloc_untouched (hs : KernelSafe s) (hhint : kernelPages ≤ (s.dirs s.current).ulowfree)
    (h : alloc s pages .userlow = some (a, s')) : Untouched s s' := by
  unfold alloc at h
  rw [if_neg (by decide)] at h
  have hsearch : SearchedUser s pages (allocSearch pages .userlow
      (totalPages - allocHint s .userlow) (allocHint s .userlow) 0 0 s) := by
    by_cases hle : allocHint s .userlow ≤ totalPages
    · exact allocSearch_untouched pages _ _ _ 0 0 s hs hhint (by omega) (.inl ⟨rfl, rfl⟩)
    · rw [show totalPages - allocHint s .userlow = 0 by omega]
      exact ⟨hs.refl, .inl rfl⟩
  simp only at h
  generalize allocSearch pages .userlow (totalPages - allocHint s .userlow)
    (allocHint s .userlow) 0 0 s = r at h hsearch
  obtain ⟨hsr, hfirst⟩ := hsearch
  split at h
  · cases h
    exact hsr
  · rename_i h0
    obtain ⟨y, hy, heq⟩ := map_eq_some_iff.1 h
    cases heq
    obtain ⟨hu, hbound⟩ := hfirst.resolve_left h0
    refine hsr.trans hs (untouched_turns hsr.safe ?_ hy)
    intro i hi u v hru hv
    rw [totalPages] at hbound
    refine mapNewPageAt_untouched hru.safe (pageAddr_lt _ i) ?_ userFlags_present.1 hv
    rw [pageAddr_page, pageSize, Nat.mul_div_cancel _ (by decide)]
    omega

/-- **The rule for the loop of `BT_ALLOC_AT`**, which maps pages of user space. -/
theorem allocAtLoop_rule (I : State → Prop) (hmap : ∀ u v a, I u → a < 2 ^ 32 → kernelPages ≤ a / 4096 →
      mapNewPageAt u a (pagesAtFlags a) = some v → I v) (addr pages n : ℕ) :
    ∀ {s s' : State}, I s → allocAtLoop addr pages n s = some s' → I s' := by
  induction n with
  | zero =>
    intro s s' hs h
    cases h
    exact hs
  | succ n ih =>
    intro s s' hs h
    have hlt := pageAddr_lt addr (pages - (n + 1))
    simp only [allocAtLoop] at h
    generalize pageAddr addr (pages - (n + 1)) = a at h hlt
    split at h
    · cases h
      exact hs
    · rename_i hge
      obtain ⟨x, hx, h⟩ := bind_eq_some_iff.1 h
      obtain ⟨y, hy, hone⟩ := turns_succ hx
      cases hy
      rw [pageAddr_zero hlt] at hone
      exact ih (hmap s x a hs hlt (user_page_iff.2 (Nat.not_lt.1 hge)) hone) h

theorem allocAtLoop_untouched (addr pages n : ℕ) (hs : KernelSafe s)
    (h : allocAtLoop addr pages n s = some s') : Untouched s s' := by
  refine allocAtLoop_rule (Untouched s) ?_ addr pages n hs.refl h
  intro u v a hsu hlt hu hv
  exact hsu.trans hs (mapNewPageAt_untouched hsu.safe hlt hu (pagesAtFlags_present a).1 hv)

end

/-! ### Page faults -/

section

variable {s s' : State}

theorem addSpacePage_untouched (hs : KernelSafe s) (id offset : ℕ)
    (hp : page % 4096 = 0 ∧ page < 2 ^ 32) (hnot : ¬KernelTable s page) :
    Untouched s (addSpacePage s id offset page) := by
  refine hs.aside ⟨rfl, rfl, rfl⟩ rfl rfl hs.inUse hs.cached ?_ rfl fun _ => rfl
  intro p hmem q hq
  obtain ⟨p0, hp0, rfl⟩ := mem_map.1 hmem
  split at hq
  · rcases mem_append.1 hq with hq | hq
    · exact hs.spaces p0 hp0 q hq
    · rw [mem_singleton.1 hq]
      exact ⟨hp, hnot⟩
  · exact hs.spaces p0 hp0 q hq

theorem shmPfHandler_untouched {id addr : ℕ} (hs : KernelSafe s) (haddr : addr < 2 ^ 32)
    (hu : kernelPages ≤ addr / 4096) (h : shmPfHandler s id addr = some s') : Untouched s s' := by
  rw [← addressOf_div haddr] at hu
  obtain ⟨m, space, -, hspace, hcase⟩ := shmPfHandler_cases h
  rcases hcase with ⟨page, hpage, hmap⟩ | ⟨f, ph, halloc, hmap⟩
  · obtain ⟨hp, hnot⟩ := hs.spaces _ (mem_of_lookup hspace) _ (mem_of_lookup hpage)
    exact mapPageAt_untouched hs (addressOf_lt addr) hu hp userFlags_present.1 hnot hmap
  · have ha := physicalAlloc_spec halloc
    have hp := And.intro ha.aligned ha.lt
    obtain ⟨htaken, hnot⟩ := ha.untouched hs
    have hadd := htaken.trans hs (addSpacePage_untouched htaken.safe m.space (m.pageOffset addr) hp
      fun hkt => hnot ((htaken.kernelTable f).1 hkt))
    exact hadd.trans hs (mapPageAt_untouched hadd.safe (addressOf_lt addr) hu hp userFlags_present.1
      (fun hkt => hnot ((hadd.kernelTable f).1 hkt)) hmap)

theorem mmapRead_untouched {id addr : ℕ} (hs : KernelSafe s) (haddr : addr < 2 ^ 32)
    (hu : kernelPages ≤ addr / 4096) (h : mmapRead s id addr = some s') : Untouched s s' := by
  rw [← addressOf_div haddr] at hu
  obtain ⟨m, -, h⟩ := bind_eq_some_iff.1 h
  split at h
  · cases h
  · split at h
    · exact mapNewPageAt_untouched hs (addressOf_lt addr) hu (pagesAtFlags_present m.addr).1 h
    · cases h

/-- The regions of the current directory are in user space. -/
def RegionsOk (s : State) : Prop := ∀ r ∈ (s.dirs s.current).regions, kernelBoundary ≤ r.addr

theorem Untouched.regionsOk (h : Untouched s s') (hr : RegionsOk s) : RegionsOk s' := by
  rw [RegionsOk, h.current, h.regions]
  exact hr

/-- **`handle_pf`** on an address of user space, or in the page at 0, where no region is. -/
theorem handlePf_untouched (hs : KernelSafe s) (hr : RegionsOk s)
    (haddr : addr < 2 ^ 32) (hu : kernelPages ≤ addr / 4096 ∨ addr / 4096 = 0)
    (h : handlePf s s.current addr = some r) : Untouched s r.2 := by
  obtain ⟨hget, -, -⟩ := getTableEntry_untouched hs (show addr / 4096 < 2 ^ 20 by omega) hu
  have hcase := handlePf_cases h
  rcases hcase with rfl | ⟨region, y, hfind, hy, rfl⟩
  · exact hget
  · have huser : kernelPages ≤ addr / 4096 := by
      refine hu.resolve_right fun h0 => ?_
      rw [hget.regions] at hfind
      have hge := hr region (mem_of_find?_eq_some hfind)
      have hcov := find?_some hfind
      simp only [Region.covers, Bool.and_eq_true, decide_eq_true_eq] at hcov
      rw [kernelBoundary] at hge
      omega
    refine hget.trans hs ?_
    unfold Region.handle at hy
    split at hy
    · exact shmPfHandler_untouched hget.safe haddr huser hy
    · exact mmapRead_untouched hget.safe haddr huser hy

/-- `resolve_addr` returns 0 or the step. -/
theorem resolved_cases (x : State) (addr : ℕ) :
    (resolved x addr).1 = 0 ∨ (resolved x addr).1 = stride addr := by
  have hdef : (resolved x addr).1 = if (virt2phys x x.current addr).1 = 0 then 0
    else if (virt2phys x x.current addr).1 % 4096 = 0 then 4096
    else (virt2phys x x.current addr).1 % 4096 := rfl
  have hval : (virt2phys x x.current addr).1 = 0 ∨ (virt2phys x x.current addr).1 =
      addressOf (getTableEntry x x.current (addr / 4096)).1 + addr % 4096 := by
    show (if addressOf (getTableEntry x x.current (addr / 4096)).1 = 0 then 0 else _) = 0 ∨
      (if addressOf (getTableEntry x x.current (addr / 4096)).1 = 0 then 0 else _) = _
    split
    · exact .inl rfl
    · exact .inr rfl
  rw [hdef]
  rcases hval with h | h
  · rw [if_pos h]
    exact .inl rfl
  · have halign := addressOf_aligned (getTableEntry x x.current (addr / 4096)).1
    have hmod : (virt2phys x x.current addr).1 % 4096 = addr % 4096 := by
      omega
    rw [hmod]
    split
    · exact .inl rfl
    · exact .inr rfl

/-- The page at address 0 is not mapped: it is a guard page. -/
def NullGuarded (s : State) : Prop := addressOf (storedEntry s s.current 0) = 0

theorem Untouched.nullGuarded (h : Untouched s s') (hs : KernelSafe s) (h0 : NullGuarded s) :
    NullGuarded s' := by
  rw [NullGuarded, h.current, h.stored hs hs.live_current (by decide) (Nat.ne_of_lt hs.frame_pos)]
  exact h0

/-- **`resolve_addr`** on such an address; in the page at 0 it fails. -/
theorem resolveAddr_untouched (hs : KernelSafe s) (hr : RegionsOk s)
    (h0 : NullGuarded s) (haddr : addr < 2 ^ 32) (hu : kernelPages ≤ addr / 4096 ∨ addr / 4096 = 0)
    (h : resolveAddr s addr = some r) :
    Untouched s r.2 ∧ (r.1 = 0 ∨ (r.1 = stride addr ∧ kernelPages ≤ addr / 4096)) := by
  obtain ⟨p, hp, heq⟩ := map_eq_some_iff.1 h
  have heq' : r = resolved p.2 addr := heq.symm
  have hup := handlePf_untouched hs hr haddr hu hp
  have hidx : addr / 4096 < 2 ^ 20 := by omega
  obtain ⟨hget, -, hnull⟩ := getTableEntry_untouched hup.safe hidx hu
  rw [heq']
  refine ⟨hup.trans hs hget, ?_⟩
  rcases hu with huser | hzero
  · exact (resolved_cases p.2 addr).imp_right fun hstride => ⟨hstride, huser⟩
  · left
    have hentry : addressOf (getTableEntry p.2 p.2.current (addr / 4096)).1 = 0 := by
      rw [hnull hzero]
      exact hup.nullGuarded hs h0
    have hphys : (virt2phys p.2 p.2.current addr).1 = 0 := by
      show (if addressOf (getTableEntry p.2 p.2.current (addr / 4096)).1 = 0 then 0 else _) = 0
      rw [if_pos hentry]
    exact if_pos hphys

end

/-! ### The pointer check -/

/-- **The loop of `is_safe_ptr`**: when its address wraps, it comes to the page at 0 and stops. -/
theorem safeLoop_untouched (ptr size fuel : ℕ) : ∀ (i : ℕ) {s : State} {r : Bool × State},
    KernelSafe s → RegionsOk s → NullGuarded s → (kernelPages ≤ add32 ptr i / 4096 ∨ add32 ptr i / 4096 = 0) →
    safeLoop ptr size fuel i s = some r → Untouched s r.2 := by
  induction fuel with
  | zero =>
    nofun
  | succ fuel ih =>
    intro i s r hs hr h0 hu h
    simp only [safeLoop] at h
    split at h
    · obtain ⟨q, hq, h⟩ := bind_eq_some_iff.1 h
      obtain ⟨huq, hstep⟩ := resolveAddr_untouched hs hr h0 (add32_lt ptr i) hu hq
      split at h
      · cases h
        exact huq
      · have hle := stride_le (add32 ptr i)
        refine huq.trans hs (ih _ huq.safe (huq.regionsOk hr) (huq.nullGuarded hs h0) ?_ h)
        simp only [add32, kernelPages] at *
        omega
    · cases h
      exact hs.refl

theorem switchProcess_current (s : State) : (switchProcess s s.current).2 = s := by
  unfold switchProcess
  split
  · exact if_pos rfl
  · rfl

/-- The pointer check of `BT_FREE_PAGES` is for a range of size 0. -/
theorem btFreePages_eq (s : State) (b c : ℕ) :
    btFreePages s b c = if kernelBoundary ≤ b then freePages s b c else some s := by
  have hsafe : isSafePtr s b 0 s.current = some (decide (kernelBoundary ≤ b), s) := by
    unfold isSafePtr
    by_cases hb : kernelBoundary ≤ b
    · have hloop : safeLoop b 0 (2 ^ 32 + 1) 0 s = some (true, s) := rfl
      rw [if_pos hb, switchProcess_current, hloop, map_some, switchProcess_current, decide_eq_true hb]
    · rw [if_neg hb, decide_eq_false hb]
  rw [btFreePages, hsafe, bind_some]
  by_cases hb : kernelBoundary ≤ b
  · rw [if_pos hb, if_pos (decide_eq_true hb)]
  · rw [if_neg hb, if_neg (by rw [decide_eq_false hb]; exact Bool.false_ne_true)]

/-- **`is_safe_ptr`** for the current process. -/
theorem isSafePtr_untouched (hs : KernelSafe s) (hr : RegionsOk s) (h0 : NullGuarded s) (hptr : ptr < 2 ^ 32)
    (h : isSafePtr s ptr size s.current = some r) :
    Untouched s r.2 ∧ (r.1 = true → kernelPages ≤ ptr / 4096) := by
  unfold isSafePtr at h
  split at h
  · rename_i hge
    have hu := user_page_iff.2 hge
    obtain ⟨q, hq, rfl⟩ := map_eq_some_iff.1 h
    rw [switchProcess_current] at hq
    have huq := safeLoop_untouched ptr size _ 0 hs hr h0
      (.inl (by rw [add32_of_lt (show ptr + 0 < 2 ^ 32 from hptr)]; exact hu)) hq
    refine ⟨?_, fun _ => hu⟩
    show Untouched s (switchProcess q.2 s.current).2
    rw [← huq.current, switchProcess_current]
    exact huq
  · cases h
    exact ⟨hs.refl, by simp⟩

/-- From an aligned address the loop goes page by page, and comes to the page at 0 before the end of a
range that goes past the top. -/
theorem safeLoop_wrap (hu : kernelPages ≤ ptr / 4096) (halign : ptr % 4096 = 0)
    (hwrap : 2 ^ 32 < ptr + size) (fuel : ℕ) : ∀ (i : ℕ) {s : State} {r : Bool × State},
    KernelSafe s → RegionsOk s → NullGuarded s → i % 4096 = 0 → ptr + i ≤ 2 ^ 32 →
    safeLoop ptr size fuel i s = some r → r.1 = false := by
  induction fuel with
  | zero =>
    nofun
  | succ fuel ih =>
    intro i s r hs hr h0 hi hle h
    simp only [safeLoop] at h
    rw [if_pos (by omega)] at h
    obtain ⟨q, hq, h⟩ := bind_eq_some_iff.1 h
    have haddr : kernelPages ≤ add32 ptr i / 4096 ∨ add32 ptr i / 4096 = 0 := by
      simp only [add32, kernelPages] at *
      omega
    obtain ⟨huq, hstep⟩ := resolveAddr_untouched hs hr h0 (add32_lt ptr i) haddr hq
    split at h
    · cases h
      rfl
    · rename_i hne
      obtain ⟨hstride, huser⟩ := hstep.resolve_left hne
      have hpage : q.1 = 4096 := by
        rw [hstride, stride, if_pos]
        simp only [add32]
        omega
      have hlt : ptr + i < 2 ^ 32 := by
        simp only [add32, kernelPages] at huser
        omega
      rw [hpage, add32_of_lt (show i + 4096 < 2 ^ 32 by rw [kernelPages] at hu; omega)] at h
      exact ih _ huq.safe (huq.regionsOk hr) (huq.nullGuarded hs h0) (by omega) (by omega) h

/-- **A range of pages past the top is not accepted.** -/
theorem isSafePtr_wrap (hs : KernelSafe s)
    (hr : RegionsOk s) (h0 : NullGuarded s) (hptr : ptr < 2 ^ 32) (halign : ptr % 4096 = 0)
    (hwrap : 2 ^ 32 < ptr + size) (h : isSafePtr s ptr size s.current = some r) : r.1 = false := by
  unfold isSafePtr at h
  split at h
  · rename_i hge
    obtain ⟨q, hq, rfl⟩ := map_eq_some_iff.1 h
    rw [switchProcess_current] at hq
    show q.1 = false
    exact safeLoop_wrap (user_page_iff.2 hge) halign hwrap _ 0 hs hr h0 rfl (by omega) hq
  · cases h
    rfl

end Btos.Kernel.Mm2
