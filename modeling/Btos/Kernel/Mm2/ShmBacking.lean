import Btos.Kernel.Mm2.ShmReadOnly

/-!
# The pages behind shared memory

A space takes its pages lazily: whichever process first touches an offset, through whichever mapping,
makes `shm_pf_handler` take a page for it.  Here are the faults of a whole run, in any order, through
all the mappings of one space.

* `Touch` — **a fault that was served**: the mapping, the address and the page that was mapped there;
* `samePage_iff` — **two touches got the same page exactly if their offsets are in the same page** of
  the space, in every run in which nothing frees a page that a space holds;
* `samePage_mapped_over` — `shm_map` over a page that was touched frees it, and the space keeps it: a touch
  of another offset gets it again.

The condition is the one for the use of physical pages, on the state before each operation, and that the
space is not closed.
-/

namespace Btos.Kernel.Mm2

open Lib.Word Lib.Lists Lib.Transition List Option

/-! ### Touches -/

/-- A fault that `shm_pf_handler` serves: the mapping, the address, and the page it maps there. -/
structure Touch where
  mapping : ShmMapping
  addr : ℕ
  page : ℕ
  deriving DecidableEq, Repr

def Touch.spaceAddr (t : Touch) : ℕ := add32 (sub32 t.addr t.mapping.addr) t.mapping.offset

def ShmOp.touch (s : State) (op : ShmOp) : Option Touch :=
  (op.call s).bind fun (x, region, addr) =>
    match region.pfHandle with
    | .mmapRead => none
    | .shmPfHandler =>
        (x.mappings.lookup region.id).bind fun m =>
          (shmMapCall x region.id addr).map fun r => ⟨m, addr, r.2.1⟩

/-- The pages of the space `a`, by offset. -/
def pagesOf (s : State) (a : ℕ) : List (ℕ × ℕ) := ((s.spaces.lookup a).map ShmSpace.pages).getD []

/-- One operation, with the touches of the space `a` so far. -/
def touchStep (a : ℕ) (w : State × List Touch) (op : ShmOp) : Option (State × List Touch) :=
  (op.run w.1).map fun s => (s, w.2 ++ (op.touch w.1).toList.filter (·.mapping.space == a))

/-- The operation takes a page fault, or does what one does. -/
def ShmOp.isFault : ShmOp → Bool
  | .mem (.pageFault _ _) | .resolve _ => true
  | _ => false

/-- The space is not closed, and no page that a space holds is freed. -/
def StaysOpen (a : ℕ) (w : State × List Touch) : ShmOp → Prop
  | .mem op => MemOk w.1 op ∧ ∀ id, op = .shmClose id → id ≠ a
  | .resolve _ => True

/-! ### Offsets and pages -/

/-- Every touch got the page that is listed at its offset, and no page is listed twice. -/
structure Paged (pages : List (ℕ × ℕ)) (ts : List Touch) : Prop where
  listed : ∀ t ∈ ts, pages.lookup (addressOf t.spaceAddr) = some t.page
  inj : ∀ o o' f, pages.lookup o = some f → pages.lookup o' = some f → o = o'

section Paged

variable {pages : List (ℕ × ℕ)} {ts : List Touch} {t t' : Touch}

theorem Paged.again (h : Paged pages ts) (ht : pages.lookup (addressOf t.spaceAddr) = some t.page) :
    Paged pages (ts ++ [t]) := by
  refine ⟨?_, h.inj⟩
  intro u hu
  rcases mem_append.1 hu with hu | hu
  · exact h.listed u hu
  · cases mem_singleton.1 hu
    exact ht

theorem Paged.first (h : Paged pages ts) (ht : pages.lookup (addressOf t.spaceAddr) = none)
    (hnew : ∀ x ∈ pages, x.2 ≠ t.page) : Paged (pages ++ [(addressOf t.spaceAddr, t.page)]) (ts ++ [t]) := by
  have hold : ∀ {o f}, pages.lookup o = some f →
      (pages ++ [(addressOf t.spaceAddr, t.page)]).lookup o = some f := by
    intro o f hf
    rw [lookup_append, hf, some_or]
  have hcases : ∀ {o f}, (pages ++ [(addressOf t.spaceAddr, t.page)]).lookup o = some f →
      pages.lookup o = some f ∨ (o = addressOf t.spaceAddr ∧ f = t.page) := by
    intro o f hf
    rw [lookup_append] at hf
    rcases or_eq_some_iff.1 hf with hf | ⟨-, hf⟩
    · exact .inl hf
    · have hmem := mem_of_lookup hf
      rw [mem_singleton, Prod.mk.injEq] at hmem
      exact .inr hmem
  refine Paged.again ⟨fun u hu => hold (h.listed u hu), ?_⟩ ?_
  · intro o o' f ho ho'
    rcases hcases ho with ho | ⟨rfl, rfl⟩
    · rcases hcases ho' with ho' | ⟨rfl, rfl⟩
      · exact h.inj o o' f ho ho'
      · exact absurd rfl (hnew _ (mem_of_lookup ho))
    · rcases hcases ho' with ho' | ⟨rfl, -⟩
      · exact absurd rfl (hnew _ (mem_of_lookup ho'))
      · rfl
  · rw [lookup_append, ht, none_or, lookup_cons_self]

theorem Paged.page_eq_iff (h : Paged pages ts) (ht : t ∈ ts) (ht' : t' ∈ ts) :
    t.page = t'.page ↔ t.spaceAddr / pageSize = t'.spaceAddr / pageSize := by
  have hlt : ∀ u : Touch, u.spaceAddr < 2 ^ 32 := fun u => Nat.mod_lt _ (by decide)
  have hpage : ∀ u : Touch, addressOf u.spaceAddr = u.spaceAddr / pageSize * 4096 := by
    intro u
    have hdiv := addressOf_div (hlt u)
    have haligned := addressOf_aligned u.spaceAddr
    simp only [pageSize]
    omega
  constructor
  · intro heq
    have hsame := h.inj _ _ _ (h.listed t ht) (heq ▸ h.listed t' ht')
    rw [hpage, hpage] at hsame
    omega
  · intro heq
    have hl := h.listed t ht
    rw [hpage, heq, ← hpage, h.listed t' ht'] at hl
    exact (Option.some.inj hl).symm

end Paged

/-! ### What the operations do to the pages of a space -/

theorem pagesOf_shm (h : s'.shm = s.shm) (a : ℕ) : pagesOf s' a = pagesOf s a := by
  rw [pagesOf, pagesOf, (ShmRecords.mk.inj h).1]

theorem pagesOf_addSpacePage (hb : s.spaces.lookup b = some sp) (a offset f : ℕ) :
    pagesOf (addSpacePage s b offset f) a =
      if a = b then pagesOf s a ++ [(offset, f)] else pagesOf s a := by
  show (((s.spaces.map _).lookup a).map ShmSpace.pages).getD [] = _
  rw [lookup_map_at fun v : ShmSpace => { v with pages := v.pages ++ [(offset, f)] }]
  by_cases hab : a = b
  · subst hab
    simp [pagesOf, hb]
  · simp [pagesOf, hab]

/-- **Nothing but a fault changes the pages of a space that stays open.** -/
theorem run_pagesOf {op : ShmOp} (ho : Owned w.1) (hfault : op.isFault = false) (hopen : StaysOpen a w op)
    (h : op.run w.1 = some s') : pagesOf s' a = pagesOf w.1 a := by
  cases op with
  | resolve addr => cases hfault
  | mem op =>
  cases op with
  | pageFault addr user => cases hfault
  | dir op => exact pagesOf_shm (dirStep_shm h) a
  | destroy pid => exact pagesOf_shm (destroyDirectory_shm h) a
  | shmCreate flags =>
    cases h
    have hspaces : (shmCreate w.1 flags).2.spaces =
      w.1.spaces.filter (fun p => p.1 != add64 w.1.spaceIdCounter 1) ++ [_] := rfl
    rw [pagesOf, hspaces]
    by_cases ha : add64 w.1.spaceIdCounter 1 = a
    · -- the id is new, so nothing is listed under it
      have hnone : w.1.spaces.lookup a = none := by
        by_contra hsome
        obtain ⟨sp, hsp⟩ := ne_none_iff_exists'.1 hsome
        have hle := ho.books.space_id _ (mem_of_lookup hsp)
        have hnew := add64_of_lt hopen.1
        omega
      rw [← ha, lookup_filter_append_self, pagesOf, ha, hnone]
      rfl
    · rw [lookup_append, lookup_filter_ne ha]
      have hne : (a == add64 w.1.spaceIdCounter 1) = false := beq_eq_false_iff_ne.2 (Ne.symm ha)
      simp [lookup_cons, hne, pagesOf]
  | shmMap id addr offset pages flags =>
    obtain ⟨r, hr, rfl⟩ := map_eq_some_iff.1 h
    rcases shmMap_cases hr with ⟨-, heq⟩ | ⟨-, x, u, hx, hu, heq⟩
    · rw [heq]
    · rw [heq]
      exact pagesOf_shm (guarded_shm hx hu) a
  | shmCloseMap id => rw [pagesOf, pagesOf, (shmCloseMap_within h).2]
  | shmClose id => rw [pagesOf, pagesOf, (shmClose_within h).2, lookup_filter_ne (hopen.2 id rfl)]
  | allocAt b c => exact pagesOf_shm (btAllocAt_shm h) a
  | freePages b c => exact pagesOf_shm (btFreePages_shm h) a

/-! ### Faults -/

/-- A page of a space is not `Free`. -/
theorem pagesOf_used (ho : Owned s) (hx : x ∈ pagesOf s a) : ¬IsFree s.physical x.2 := by
  rw [pagesOf] at hx
  cases hsp : s.spaces.lookup a with
  | none =>
    rw [hsp] at hx
    cases hx
  | some sp =>
    rw [hsp] at hx
    exact ho.sound.member_used a x.2 ⟨_, mem_of_lookup hsp, rfl, x, hx, rfl⟩

/-- **A fault that is served**: the touch gets the page at its offset, or the first page for it, which was `Free` and
so is none that the space has. -/
theorem Paged.serve {op : ShmOp} {ts : List Touch} (h : Paged (pagesOf s a) ts) (ho : Owned s)
    (hrun : op.run s = some s') (hc : op.call s = some c) :
    Paged (pagesOf s' a) (ts ++ (op.touch s).toList.filter (·.mapping.space == a)) := by
  obtain ⟨x, region, addr⟩ := c
  obtain ⟨y, hy, hys⟩ := run_call hrun hc
  have hsx : Calm s x := call_calm hc
  dsimp only at hy
  unfold Region.handle at hy
  split at hy
  · rename_i hregion
    obtain ⟨m, sp, f, z, hm, hsp, hcall, hmap, hcase⟩ := shmPfHandler_call hy
    have htouch : op.touch s = some ⟨m, addr, f⟩ := by
      simp only [ShmOp.touch, hc, bind_some, hregion, hm, hcall, map_some]
    have hpages := pagesOf_shm ((mapPageAt_calm hmap).trans hys).shm a
    have hold := pagesOf_shm hsx.shm a
    have hx : pagesOf x m.space = sp.pages := by
      rw [pagesOf, hsp]
      rfl
    rw [htouch, toList_some, filter_cons, filter_nil, hpages]
    rcases hcase with ⟨hpage, rfl⟩ | ⟨ph, hnone, halloc, rfl⟩
    · -- the space has a page at the offset
      rw [← hold] at h
      split
      · rename_i hspace
        cases beq_iff_eq.1 hspace
        refine h.again ?_
        show (pagesOf z _).lookup (m.pageOffset addr) = some f
        rw [hx, hpage]
      · rwa [append_nil]
    · have hsp' : ({ x with physical := ph } : State).spaces.lookup m.space = some sp := hsp
      rw [pagesOf_addSpacePage hsp', show pagesOf ({ x with physical := ph } : State) a = pagesOf s a from hold]
      by_cases hspace : m.space = a
      · subst hspace
        rw [if_pos rfl, if_pos (beq_self_eq_true m.space)]
        have hfree := hsx.free f (physicalAlloc_spec halloc).wasFree
        have hnew : ∀ q ∈ pagesOf s m.space, q.2 ≠ f := fun q hq heq => pagesOf_used ho hq (heq ▸ hfree)
        rw [← hx, hold] at hnone
        exact h.first (t := ⟨m, addr, f⟩) hnone hnew
      · rw [if_neg (Ne.symm hspace), if_neg (by simpa using hspace), append_nil]
        exact h
  · rename_i hregion
    have htouch : op.touch s = none := by
      simp only [ShmOp.touch, hc, bind_some, hregion]
    rw [htouch, toList_none, filter_nil, append_nil]
    obtain ⟨m, -, hy⟩ := bind_eq_some_iff.1 hy
    split at hy
    · cases hy
    · split at hy
      · rwa [pagesOf_shm ((hsx.trans (mapNewPageAt_calm hy)).trans hys).shm]
      · cases hy

/-- A fault that no handler is called for changes neither the records nor the physical pages. -/
theorem noCall_calm {op : ShmOp} (hfault : op.isFault = true) (hc : op.call s = none)
    (h : op.run s = some s') : Calm s s' := by
  cases op with
  | resolve addr =>
    obtain ⟨r, hr, rfl⟩ := map_eq_some_iff.1 h
    obtain ⟨q, hq, rfl⟩ := map_eq_some_iff.1 hr
    rw [handlePf_served, map_eq_none_iff.1 hc] at hq
    cases hq
    exact (getTableEntry_calm ..).trans (getTableEntry_calm ..)
  | mem op =>
    cases op with
    | pageFault addr user =>
      have hc' := map_eq_none_iff.1 hc
      have h' : pageFault s addr user = some s' := h
      unfold faultCall at hc'
      simp only at hc'
      split at hc'
      · cases hc'
      · rename_i hnone
        unfold pageFault at h'
        simp only [handlePf_served, hnone, hc', bind_some, Bool.false_eq_true, if_false, false_or] at h'
        split at h'
        · cases h'
          exact ((getTableEntry_calm ..).trans (getTableEntry_calm ..)).trans (getTableEntry_calm ..)
        · cases h'
    | _ => cases hfault

/-! ### Runs -/

structure Backing (a : ℕ) (w : State × List Touch) : Prop where
  tables : Tables w.1
  owned : Owned w.1
  paged : Paged (pagesOf w.1 a) w.2

theorem run_owned (ht : Tables w.1) (ho : Owned w.1) (hok : StaysOpen a w op) (h : op.run w.1 = some s') :
    Tables s' ∧ Owned s' := by
  cases op with
  | mem op => exact memStep_owned ht ho hok.1 h
  | resolve addr =>
    obtain ⟨r, hr, rfl⟩ := map_eq_some_iff.1 h
    exact resolveAddr_owned ht ho hr

/-- **The step lemma.** -/
theorem touchStep_backing (h : Backing a w) (hok : StaysOpen a w op) (hs : touchStep a w op = some w') :
    Backing a w' := by
  obtain ⟨s', hrun, rfl⟩ := map_eq_some_iff.1 hs
  obtain ⟨ht, ho⟩ := run_owned h.tables h.owned hok hrun
  refine ⟨ht, ho, ?_⟩
  cases hc : op.call w.1 with
  | some c => exact h.paged.serve h.owned hrun hc
  | none =>
    have htouch : op.touch w.1 = none := by
      rw [ShmOp.touch, hc]
      rfl
    have hpages : pagesOf s' a = pagesOf w.1 a := by
      cases hfault : op.isFault with
      | true => exact pagesOf_shm (noCall_calm hfault hc hrun).shm a
      | false => exact run_pagesOf h.owned hfault hok hrun
    rw [htouch, toList_none, filter_nil, append_nil, hpages]
    exact h.paged

theorem boot_backing (b : BootInfo) (a : ℕ) : Backing a (boot b, []) := by
  refine ⟨boot_tables b, boot_owned b, by simp, ?_⟩
  intro o o' f ho
  cases ho

/-- **One page for one offset.**  From boot, whatever faults are taken, in whatever order and processes and
through whatever mappings, and whatever else is done while the space stays open: two touches of the space
got the same page exactly if their offsets lie in the same page. -/
theorem samePage_iff {b : BootInfo} {a : ℕ} {s : State} {ts : List Touch}
    (h : Reach (touchStep a) (StaysOpen a) (boot b, []) (s, ts)) (ht : t ∈ ts) (ht' : t' ∈ ts) :
    t.page = t'.page ↔ t.spaceAddr / pageSize = t'.spaceAddr / pageSize := by
  have hback := h.invariant (Backing a) (boot_backing b a) fun _ _ _ hi hok hs => touchStep_backing hi hok hs
  exact hback.paged.page_eq_iff ht ht'

theorem staysOpen_of_plain (h : Backing a w) (hok : op.plain w.1 = true) : StaysOpen a w op := by
  cases op with
  | resolve addr => trivial
  | mem op =>
    refine ⟨memOk_of_plain h.tables hok, ?_⟩
    rintro id rfl
    cases hok

/-- A process maps a page of a new space twice, and the next page of the space once, and touches all three. -/
def touchTwice : List ShmOp :=
  (processRuns ++ [MemOp.shmCreate 0, .shmMap 1 0x40000000 0 1 0, .shmMap 1 0x40010000 0x1000 1 0,
    .shmMap 1 0x40020000 0x1000 1 0]).map .mem ++
    [.mem (.pageFault 0x40000004 true), .mem (.pageFault 0x40010008 true), .resolve 0x40020000]

theorem samePage_iff_twice : ∃ s t₀ t₁ t₂,
    Reach (touchStep 1) (StaysOpen 1) (boot smallBoot, []) (s, [t₀, t₁, t₂]) ∧
      t₁.page = t₂.page ∧ t₀.page ≠ t₁.page := by
  have hplain : Guarded (touchStep 1) (fun w op => op.plain w.1 = true) (boot smallBoot, []) touchTwice := by
    decide +kernel
  have hguard := Guarded.of_enough (Backing 1) (fun _ _ h => staysOpen_of_plain h)
    (fun _ _ _ h hok hs => touchStep_backing h hok hs) _ _ (boot_backing smallBoot 1) hplain
  have hcheck : (exec (touchStep 1) (boot smallBoot, []) touchTwice).map (·.2.map Touch.spaceAddr) =
      some [4, 0x1008, 0x1000] := by
    decide +kernel
  obtain ⟨w, hw, hts⟩ := map_eq_some_iff.1 hcheck
  obtain ⟨t₀, l1, h0, ha0, hl1⟩ := map_eq_cons_iff.1 hts
  obtain ⟨t₁, l2, h1, ha1, hl2⟩ := map_eq_cons_iff.1 hl1
  obtain ⟨t₂, l3, h2, ha2, hl3⟩ := map_eq_cons_iff.1 hl2
  cases map_eq_nil_iff.1 hl3
  subst h1 h2
  have hreach := Reach.of_exec (touchStep 1) (StaysOpen 1) touchTwice _ hw hguard
  rw [show w = (w.1, [t₀, t₁, t₂]) from Prod.ext rfl h0] at hreach
  refine ⟨w.1, t₀, t₁, t₂, hreach, ?_, ?_⟩
  · refine (samePage_iff hreach (by simp) (by simp)).2 ?_
    rw [ha1, ha2]
    decide
  · intro heq
    have hsame := (samePage_iff hreach (by simp) (by simp)).1 heq
    rw [ha0, ha1] at hsame
    exact absurd hsame (by decide)

/-- A process maps six pages of a new space, touches the first, maps it once more at the same address and touches the
others. -/
def mapOver : List MemOp :=
  processRuns ++ [.shmCreate 0, .shmMap 1 0x40000000 0 6 0, .pageFault 0x40000000 true, .shmMap 1 0x40000000 0 1 0,
    .pageFault 0x40001000 true, .pageFault 0x40002000 true, .pageFault 0x40003000 true, .pageFault 0x40004000 true,
    .pageFault 0x40005000 true]

/-- Offsets 0 and 0x5000 have one page, with nothing closed: the second mapping freed the page of the first touch. -/
theorem samePage_mapped_over : (exec (touchStep 1) (boot smallBoot, []) (mapOver.map .mem)).map
    (·.2.map fun t => (t.spaceAddr, t.page)) = some [(0, 0x8000), (0x1000, 0x7000), (0x2000, 0x6000),
      (0x3000, 0x5000), (0x4000, 0x4000), (0x5000, 0x8000)] := by
  decide +kernel

end Btos.Kernel.Mm2
