import Btos.Kernel.Mm2.FrameOps

/-!
# Shared memory and the use of physical pages

Pages of a space may be mapped many times, all others once.  That a fault takes the page of the right offset is
not needed here; it is in `Btos.Kernel.Mm2.ShmBacking`.

* `shmPfHandler_owned`, `handlePf_owned`, `pageFault_owned` — a fault in a shared mapping maps a page of
  the space, and **only where a mapping of the space is**.

Closing a space is in `Btos.Kernel.Mm2.FrameClose`.
-/

namespace Btos.Kernel.Mm2

open Lib.Word Lib.Loop Lib.Lists Lib.Ownership List Option

/-! ### Faults -/

section

variable {s s' : State}

theorem Owned.not_isTable (ho : Owned s) (hm : InSpace s a f) : ¬IsTable s f := fun htab =>
  ho.sound.member_allowed a f (some 0, 0) hm (.inr ⟨some_ne_none 0, htab⟩)

theorem Owned.page_ok (ho : Owned s) (hm : InSpace s a f) : f % 4096 = 0 ∧ 0 < f ∧ f < 2 ^ 32 := by
  obtain ⟨x, hx, -, q, hq, rfl⟩ := hm
  exact ho.books.space_pages x hx q hq

/-- **A page of a space is mapped** where a mapping of the space covers it. -/
theorem mapShared_owned (ht : Tables s) (ho : Owned s) (haddr : addr < 2 ^ 32)
    (huser : kernelPages ≤ addr / 4096) (hpage : InSpace s a page)
    (hcov : (view s).covers (some s.current, addr / 4096) a)
    (h : mapPageAt s (addressOf addr) page userFlags = some s') : Tables s' ∧ Owned s' := by
  obtain ⟨halign, -, hlt⟩ := ho.page_ok hpage
  have hdiv := addressOf_div haddr
  have hF : addr / 4096 ≠ s.tableFrame := ht.ne_frame huser
  obtain ⟨hts, hw, hfree⟩ := mapPageAt_spec ht (addressOf_lt addr) (by rw [hdiv]; exact hF) halign
    userFlags_present (by rw [hdiv]; exact notCachedElsewhere_user huser) h
  rw [hdiv] at hw
  have hentry : addressOf (page ||| userFlags) = page :=
    addressOf_or halign hlt userFlags_present.1
  have hused := ho.sound.member_used a page hpage
  refine ⟨hts, hw.owned ho.sound ho.books hfree ?_ ?_ ?_ ?_⟩ <;> rw [hentry]
  · exact fun hf => hused (hfree _ hf)
  · exact hw.not_isTable hused (ho.not_isTable hpage)
  · exact fun _ _ _ _ => ⟨a, hpage⟩
  · intro b hb
    rw [ho.sound.single b a page hb hpage, slot_user s.current huser]
    exact hcov

/-- **A space gets a page** that was `Free`. -/
theorem addSpacePage_owned (a offset : ℕ) (ht : Tables s) (ho : Owned s)
    (ha : Allocated s.physical f ph) : Tables (addSpacePage { s with physical := ph } a offset f) ∧
      Owned (addSpacePage { s with physical := ph } a offset f) := by
  have hc := ha.carried.trans (addSpacePage_carried { s with physical := ph } a offset f)
  have htx := hc.tables ht
  have hin := hc.intact ht
  refine ⟨htx, ?_, ?_, ?_⟩
  · rw [hc.isTable, hc.window ht]
    exact ho.shows
  · refine ho.sound.enroll a ha.wasFree ?_ ?_ (fun g hg => (ha.free_iff g).1 hg) ?_
      ?_ ?_ (fun _ _ => id)
    · intro p hf
      exact ha.not_isTable ht ((hc.isTable f).1 (forbidden_isTable hf))
    · rintro p g ⟨d, idx, rfl, hm⟩
      exact ⟨d, idx, rfl, hm.of_stored hm.live rfl (hc.stored hm.live hm.lt)⟩
    · exact fun p g hf => .inl ((hin.sourced ht).forbidden hf)
    · rintro b g ⟨x, hx, rfl, q, hq, rfl⟩
      obtain ⟨y, hy, rfl⟩ := mem_map.1 hx
      split at hq
      · rename_i hid
        rcases mem_append.1 hq with hq | hq
        · exact .inl ⟨y, hy, by rw [if_pos hid], q, hq, rfl⟩
        · rw [mem_singleton.1 hq]
          exact .inr ⟨by rw [if_pos hid]; exact hid, rfl⟩
      · rename_i hid
        exact .inl ⟨y, hy, by rw [if_neg hid], q, hq, rfl⟩
    · rintro b g ⟨x, hx, rfl, q, hq, rfl⟩
      refine ⟨_, mem_map_of_mem hx, ?_, q, ?_, rfl⟩
      · split <;> rfl
      · split
        · exact mem_append_left _ hq
        · exact hq
  · have hb := ho.books
    refine ⟨hb.kernel_live, hb.kernel_regions, hb.regions, hb.mapping_id, hb.mapping_unique,
      hb.mapping_addr, ?_, addSpacePage_spacesOk (s := { s with physical := ph }) hb.space_pages a
        offset ⟨ha.aligned, ha.pos, ha.lt⟩⟩
    intro x hx
    obtain ⟨y, hy, rfl⟩ := mem_map.1 hx
    have hid : (if y.1 = a then (y.1, { y.2 with pages := y.2.pages ++ [(offset, f)] }) else y).1 = y.1 := by
      split <;> rfl
    rw [hid]
    exact hb.space_id y hy

/-- **A fault in a shared mapping.** -/
theorem shmPfHandler_owned {id addr : ℕ} (ht : Tables s) (ho : Owned s) (haddr : addr < 2 ^ 32)
    (huser : kernelPages ≤ addr / 4096)
    (hrange : ∀ m, (id, m) ∈ s.mappings → m.pid = s.current ∧ m.InRange (addr / 4096))
    (h : shmPfHandler s id addr = some s') : Tables s' ∧ Owned s' := by
  obtain ⟨m, space, hm, hspace, hcase⟩ := shmPfHandler_cases h
  have hmem := mem_of_lookup hm
  obtain ⟨hpid, hin⟩ := hrange m hmem
  have hcov : (view s).covers (some s.current, addr / 4096) m.space :=
    ⟨(id, m), hmem, rfl, addr / 4096, by rw [hpid], hin⟩
  rcases hcase with ⟨page, hpage, hmap⟩ | ⟨f, ph, halloc, hmap⟩
  · exact mapShared_owned ht ho haddr huser
      ⟨_, mem_of_lookup hspace, rfl, _, mem_of_lookup hpage, rfl⟩ hcov hmap
  · obtain ⟨htx, hox⟩ := addSpacePage_owned m.space (m.pageOffset addr) ht ho
      (physicalAlloc_spec halloc)
    refine mapShared_owned htx hox haddr huser ?_ hcov hmap
    refine ⟨_, mem_map_of_mem (mem_of_lookup hspace), ?_, (m.pageOffset addr, f), ?_, rfl⟩
    · rw [if_pos rfl]
    · rw [if_pos rfl]
      exact mem_append_right _ mem_cons_self

theorem inRange_of_covers {m : ShmMapping} {r : Region} {addr : ℕ} (haddr : m.addr = r.addr)
    (hsize : mul32 m.pages pageSize = r.size) (halign : m.addr % 4096 = 0)
    (hcov : r.covers addr = true) : m.InRange (addr / 4096) := by
  simp only [Region.covers, Bool.and_eq_true, decide_eq_true_eq] at hcov
  rw [ShmMapping.InRange, hsize, haddr]
  omega

/-- **`handle_pf`** on the current directory. -/
theorem handlePf_owned {addr : ℕ} {r : Bool × State} (ht : Tables s) (ho : Owned s)
    (haddr : addr < 2 ^ 32) (h : handlePf s s.current addr = some r) : Tables r.2 ∧ Owned r.2 := by
  have hq := ht.getTableEntry_quiet ht.live_current (show addr / 4096 < 2 ^ 20 by omega)
  have hcase := handlePf_cases h
  generalize (getTableEntry s s.current (addr / 4096)).2 = x at hcase hq
  have htx := ht.quiet hq
  have hox := hq.owned ht ho
  have hlive : x.live s.current = true := by
    rw [hq.live]
    exact ht.live_current
  rcases hcase with rfl | ⟨region, y, hfind, hy, rfl⟩
  · exact ⟨htx, hox⟩
  · obtain ⟨hshm, -, hmap⟩ := hox.books.regions _ hlive region (mem_of_find?_eq_some hfind)
    have hcov := find?_some hfind
    simp only [Region.handle, hshm] at hy
    have hrange : ∀ m, (region.id, m) ∈ x.mappings → m.pid = x.current ∧ m.InRange (addr / 4096) := by
      intro m hm
      obtain ⟨hpid, hma, hms⟩ := hmap m hm
      exact ⟨by rw [hq.current]; exact hpid, inRange_of_covers hma hms
        (hox.books.mapping_addr _ hm).2 hcov⟩
    -- the handler returns, so there is a mapping
    obtain ⟨m, -, hm, -⟩ := shmPfHandler_cases hy
    have hmem := mem_of_lookup hm
    have huser : kernelPages ≤ addr / 4096 := by
      have hb := (hox.books.mapping_addr _ hmem).1
      have hin := (hrange m hmem).2.1
      simp only [kernelBoundary, kernelPages] at *
      omega
    exact shmPfHandler_owned htx hox haddr huser hrange hy

/-- **A page fault.**  The kernel's process has no regions, so only the current one's count. -/
theorem pageFault_owned (ht : Tables s) (ho : Owned s)
    (haddr : addr < 2 ^ 32) (h : pageFault s addr user = some s') : Tables s' ∧ Owned s' := by
  have hq := look_quiet ht haddr
  have htx := ht.quiet hq
  have hox := look_owned ht ho haddr
  unfold pageFault at h
  rw [← hq.current] at h
  generalize hx : (virt2phys s (virt2phys s s.current addr).2.current addr).2 = x at h
  have hx' : (virt2phys s s.current addr).2 = x := by
    rw [← hx, hq.current]
  rw [hx'] at htx hox h
  obtain ⟨r, hr, h⟩ := bind_eq_some_iff.1 h
  obtain ⟨htr, hor⟩ := handlePf_owned htx hox haddr hr
  split at h
  · cases h
    exact ⟨htr, hor⟩
  · obtain ⟨k, hk, h⟩ := bind_eq_some_iff.1 h
    have hqk := htr.getTableEntry_quiet hor.books.kernel_live (show addr / 4096 < 2 ^ 20 by omega)
    have hregions : ((isMapped r.2 kernelPid addr).2.dirs kernelPid).regions = [] := by
      show ((getTableEntry r.2 kernelPid (addr / 4096)).2.dirs kernelPid).regions = []
      rw [hqk.kept.regions]
      exact hor.books.kernel_regions
    have hk' : k = (false, (getTableEntry r.2 kernelPid (addr / 4096)).2) := by
      simp only [handlePf, hregions, find?_nil, ite_self] at hk
      exact (Option.some.inj hk).symm
    rw [hk'] at h
    split at h
    · cases h
      exact ⟨htr.quiet hqk, hqk.owned htr hor⟩
    · cases h

end

/-! ### Making spaces and mappings -/

section

variable {s s' : State}

theorem mem_filter_append {α : Type*} {l : List (ℕ × α)} {n : ℕ} {y : α} (hl : ∀ x ∈ l, x.1 < n) {x : ℕ × α} :
    x ∈ l.filter (fun p => p.1 != n) ++ [(n, y)] ↔ x ∈ l ∨ x = (n, y) := by
  rw [mem_append, mem_singleton, mem_filter]
  refine or_congr_left (and_iff_left_of_imp fun hx => ?_)
  rw [bne_iff_ne]
  exact Nat.ne_of_lt (hl x hx)

section

variable (ht : Tables s) (ho : Owned s)
include ht ho

/-- **`shm_create`**, while ids last. -/
theorem shmCreate_owned {flags : ℕ} (hid : s.spaceIdCounter + 1 < 2 ^ 64) :
    Tables (shmCreate s flags).2 ∧ Owned (shmCreate s flags).2 := by
  have hc : Carried s (shmCreate s flags).2 :=
    ⟨⟨rfl, rfl, rfl⟩, fun _ _ => rfl, fun _ => rfl, fun _ => rfl, fun _ _ => id⟩
  have hnew : add64 s.spaceIdCounter 1 = s.spaceIdCounter + 1 := add64_of_lt hid
  have hb := ho.books
  have hspaces : ∀ x, x ∈ (shmCreate s flags).2.spaces ↔
      x ∈ s.spaces ∨ x = (s.spaceIdCounter + 1, ⟨[], flags, s.current⟩) := by
    intro x
    simp only [shmCreate, hnew]
    exact mem_filter_append fun y hy => Nat.lt_succ_of_le (hb.space_id y hy)
  have hmember : ∀ a f, InSpace (shmCreate s flags).2 a f ↔ InSpace s a f := by
    intro a f
    constructor
    · rintro ⟨x, hx, hxa, q, hq, hqf⟩
      rcases (hspaces x).1 hx with hx | rfl
      · exact ⟨x, hx, hxa, q, hq, hqf⟩
      · exact absurd hq not_mem_nil
    · rintro ⟨x, hx, hxa, q, hq, hqf⟩
      exact ⟨x, (hspaces x).2 (.inl hx), hxa, q, hq, hqf⟩
  refine hc.owned ht ho (fun _ => id) hmember (fun _ _ => id) ⟨hb.kernel_live, hb.kernel_regions,
    hb.regions, hb.mapping_id, hb.mapping_unique, hb.mapping_addr, ?_, ?_⟩
  · intro x hx
    show x.1 ≤ add64 s.spaceIdCounter 1
    rw [hnew]
    rcases (hspaces x).1 hx with hx | rfl
    · exact Nat.le_succ_of_le (hb.space_id x hx)
    · exact Nat.le_refl _
  · intro x hx q hq
    rcases (hspaces x).1 hx with hx | rfl
    · exact hb.space_pages x hx q hq
    · exact absurd hq not_mem_nil

theorem shmRecord_owned {id addr offset pages : ℕ}
    (hcur : s.current ≠ kernelPid) (hid : s.mappingIdCounter + 1 < 2 ^ 64)
    (haddr : kernelBoundary ≤ addr) (halign : addr % 4096 = 0) :
    Tables (shmRecord s id addr offset pages) ∧ Owned (shmRecord s id addr offset pages) := by
  have hnew : add64 s.mappingIdCounter 1 = s.mappingIdCounter + 1 := add64_of_lt hid
  have hb := ho.books
  have hmappings : ∀ x, x ∈ (shmRecord s id addr offset pages).mappings ↔ x ∈ s.mappings ∨
      x = (s.mappingIdCounter + 1, ⟨id, addr, offset, pages, 0, s.current⟩) := by
    intro x
    simp only [shmRecord, hnew]
    exact mem_filter_append fun y hy => Nat.lt_succ_of_le (hb.mapping_id y hy)
  have hregions : ∀ d r, r ∈ ((shmRecord s id addr offset pages).dirs d).regions →
      r ∈ (s.dirs d).regions ∨ (d = s.current ∧
        r = ⟨addr, mul32 pages pageSize, s.mappingIdCounter + 1, .shmPfHandler⟩) := by
    intro d r hr
    by_cases hd : d = s.current
    · subst hd
      have hr' : r ∈ (s.dirs s.current).regions ++
          [⟨addr, mul32 pages pageSize, add64 s.mappingIdCounter 1, .shmPfHandler⟩] := by
        simpa only [shmRecord, addRegion, setDir_self] using hr
      rw [hnew, mem_append, mem_singleton] at hr'
      exact hr'.imp_right fun heq => ⟨rfl, heq⟩
    · left
      simpa only [shmRecord, addRegion, setDir_of_ne _ _ hd] using hr
  have hsame := setDir_carried (x := { s.dirs s.current with
    regions := (s.dirs s.current).regions ++
      [⟨addr, mul32 pages pageSize, add64 s.mappingIdCounter 1, .shmPfHandler⟩] }) rfl rfl
  have hc : Carried s (shmRecord s id addr offset pages) :=
    ⟨⟨rfl, rfl, rfl⟩, fun _ _ => rfl, hsame.directory, hsame.entrycache, fun _ _ hf => hf⟩
  refine hc.owned ht ho (fun _ hf => hf) (fun _ _ => Iff.rfl) ?_
    ⟨hb.kernel_live, ?_, ?_, ?_, ?_, ?_, hb.space_id, hb.space_pages⟩
  · rintro p a ⟨x, hx, hrest⟩
    exact ⟨x, (hmappings x).2 (.inl hx), hrest⟩
  · rw [eq_nil_iff_forall_not_mem]
    intro r hr
    rcases hregions _ r hr with hr | ⟨hd, -⟩
    · rw [hb.kernel_regions] at hr
      exact absurd hr not_mem_nil
    · exact hcur hd.symm
  · intro d hd r hr
    show _ ∧ r.id ≤ add64 s.mappingIdCounter 1 ∧ _
    rw [hnew]
    rcases hregions d r hr with hr | ⟨rfl, rfl⟩
    · obtain ⟨hshm, hle, hold⟩ := hb.regions d hd r hr
      refine ⟨hshm, Nat.le_succ_of_le hle, fun m hm => ?_⟩
      rcases (hmappings _).1 hm with hm | heq
      · exact hold m hm
      · have := (Prod.mk.inj heq).1
        omega
    · refine ⟨rfl, Nat.le_refl _, fun m hm => ?_⟩
      rcases (hmappings _).1 hm with hm | heq
      · have := hb.mapping_id _ hm
        exact absurd this (Nat.not_succ_le_self _)
      · cases (Prod.mk.inj heq).2
        exact ⟨rfl, rfl, rfl⟩
  · intro x hx
    show x.1 ≤ add64 s.mappingIdCounter 1
    rw [hnew]
    rcases (hmappings x).1 hx with hx | rfl
    · exact Nat.le_succ_of_le (hb.mapping_id x hx)
    · exact Nat.le_refl _
  · intro x hx y hy heq
    rcases (hmappings x).1 hx with hx | rfl <;> rcases (hmappings y).1 hy with hy | rfl
    · exact hb.mapping_unique x hx y hy heq
    · have := hb.mapping_id x hx
      exact absurd (heq ▸ this) (Nat.not_succ_le_self _)
    · have := hb.mapping_id y hy
      exact absurd (heq ▸ this) (Nat.not_succ_le_self _)
    · rfl
  · intro x hx
    rcases (hmappings x).1 hx with hx | rfl
    · exact hb.mapping_addr x hx
    · exact ⟨haddr, halign⟩

theorem guardPages_owned (hready : s.schedulerReady = true)
    (hlt : ∀ i < n, addr + i * 4096 < 2 ^ 32)
    (h : turns (fun i s => guardPageAt s (addr + i * pageSize)) n s = some s') :
    (Tables s' ∧ Owned s') ∧ Kept s s' := by
  refine turns_invariant (fun _ u => (Tables u ∧ Owned u) ∧ Kept s u) ⟨⟨ht, ho⟩, Kept.refl s⟩ n ?_ h
  rintro i hi u v - ⟨⟨htu, hou⟩, hsu⟩ hv
  have hru : ¬u.schedulerReady = false := by
    rw [hsu.schedulerReady, hready]
    decide
  obtain ⟨htv, hov, huv⟩ := guardPageAt_owned htu hou (hlt i hi) (fun hf => absurd hf hru)
    (fun hf => absurd hf hru) hv
  exact ⟨⟨htv, hov⟩, hsu.trans huv⟩

/-- **`shm_map`** from a process: its pages are freed, guarded and recorded. -/
theorem shmMap_owned {id addr offset pages flags a : ℕ}
    (hready : s.schedulerReady = true) (hcur : s.current ≠ kernelPid)
    (hid : s.mappingIdCounter + 1 < 2 ^ 64) (haddr : kernelBoundary ≤ addr)
    (hok : ∀ i < pages, ∀ u, turns (freeTurn addr) i s = some u →
      FreeTurnOk u (pageAddr addr i / 4096) ∧ NotShared u (pageAddr addr i / 4096))
    (h : shmMap s id addr offset pages flags = some (a, s')) : Tables s' ∧ Owned s' := by
  rcases shmMap_cases h with ⟨-, rfl⟩ | ⟨hchecks, x, y, hx, hy, rfl⟩
  · exact ⟨ht, ho⟩
  · obtain ⟨htx, hox, hsx⟩ := freePages_owned ht ho hok hx
    obtain ⟨⟨hty, hoy⟩, hxy⟩ := guardPages_owned htx hox (hsx.schedulerReady.trans hready)
      (fun i hi => lt_of_lt_rangeTurns hi) hy
    have hsy := hsx.trans hxy
    exact shmRecord_owned hty hoy (by rw [hsy.current]; exact hcur)
      (by rw [hsy.mappingIdCounter]; exact hid) haddr (of_shmMapChecks hchecks).2

end

end

end Btos.Kernel.Mm2
