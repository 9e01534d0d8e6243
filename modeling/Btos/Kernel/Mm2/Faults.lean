import Btos.Lib.Lists
import Btos.Kernel.Mm2.Alloc
import Btos.Kernel.Mm2.Shm

/-!
# Page faults and looking addresses up

`handle_pf` on an address of user space: if a region of the current directory covers it, its handler
maps one page there.  Nothing is said of what the page holds; for mapped files that is in
`Btos.Kernel.Mm2.MmapMemory`.

* `Extends` — what a handled fault does to the current directory: **mapped pages stay mapped**.
-/

namespace Btos.Kernel.Mm2

open Lib.Word Lib.Lists Lib.Loop List Option

/-- The page is mapped in directory `d`: `is_mapped` of the stored entry. -/
def MappedAt (s : State) (d : Pid) (idx : ℕ) : Prop := addressOf (storedEntry s d idx) ≠ 0

instance (s : State) (d : Pid) (idx : ℕ) : Decidable (MappedAt s d idx) :=
  inferInstanceAs (Decidable (addressOf (storedEntry s d idx) ≠ 0))

def SpacesOk (s : State) : Prop := ∀ p ∈ s.spaces, ∀ q ∈ p.2.pages, q.2 % 4096 = 0 ∧ 0 < q.2 ∧ q.2 < 2 ^ 32

/-- `x` is `s` after faults in the current directory have been handled. -/
structure Extends (s x : State) : Prop extends Stays s x where
  tables : Tables x
  regions : ∀ d, (x.dirs d).regions = (s.dirs d).regions
  spaces : SpacesOk x
  null : storedEntry x s.current 0 = storedEntry s s.current 0
  mapped : ∀ j, j < 2 ^ 20 → j ≠ s.tableFrame → MappedAt s s.current j → MappedAt x s.current j

theorem Extends.trans (h : Extends s x) (h' : Extends x y) : Extends s y where
  tables := h'.tables
  toStays := h.toStays.trans h'.toStays
  regions d := (h'.regions d).trans (h.regions d)
  spaces := h'.spaces
  null := by
    have := h'.null
    rw [h.current] at this
    exact this.trans h.null
  mapped := by
    intro j hj hne hm
    have := h'.mapped j hj (by rw [h.tableFrame]; exact hne)
    rw [h.current] at this
    exact this (h.mapped j hj hne hm)

theorem Alike.extends (h : Alike s x) (ht : Tables s) (htx : Tables x) (hs : SpacesOk s) : Extends s x where
  tables := htx
  toStays := h.kept.toStays
  regions := h.kept.regions
  spaces := by
    unfold SpacesOk
    rw [h.kept.spaces]
    exact hs
  null := h.stored _ _ ht.live_current (by decide) (Nat.ne_of_lt ht.frame_pos)
  mapped := by
    intro j hj hne
    rw [MappedAt, MappedAt, h.stored _ _ ht.live_current hj hne]
    exact id

theorem Carried.extends (h : Carried s x) (ht : Tables s)
    (hr : ∀ d, (x.dirs d).regions = (s.dirs d).regions) (hs : SpacesOk x) : Extends s x where
  tables := h.tables ht
  toStays := h.toStays
  regions := hr
  spaces := hs
  null := h.stored ht.live_current (by decide)
  mapped := by
    intro j hj _
    rw [MappedAt, MappedAt, h.stored ht.live_current hj]
    exact id

theorem Written.extends (h : Written s x idx e) (ht : Tables s)
    (htx : Tables x) (hs : SpacesOk s) (h0 : idx ≠ 0) (he : addressOf e ≠ 0) : Extends s x where
  tables := htx
  toStays := h.kept.toStays
  regions := h.kept.regions
  spaces := by
    unfold SpacesOk
    rw [h.kept.spaces]
    exact hs
  null := h.other _ _ ht.live_current (by decide) (Nat.ne_of_lt ht.frame_pos) fun hh => h0 hh.1.symm
  mapped := by
    intro j hj hne hm
    by_cases hji : j = idx
    · subst hji
      rw [MappedAt, h.stored_current ht]
      exact he
    · rw [MappedAt, h.other _ _ ht.live_current hj hne fun hh => hji hh.1]
      exact hm

theorem lt_of_lt_rangeTurns (h : i < rangeTurns addr pages) : addr + i * 4096 < 2 ^ 32 := by
  have hend := add32_lt addr (mul32 pages pageSize)
  simp only [rangeTurns, pageSize] at h hend
  omega

/-! ### Handlers -/

variable {s s' : State} {addr : ℕ}

theorem shmPfHandler_cases {id addr : ℕ} (h : shmPfHandler s id addr = some s') :
    ∃ m space, s.mappings.lookup id = some m ∧ s.spaces.lookup m.space = some space ∧
      ((∃ page, space.pages.lookup (m.pageOffset addr) = some page ∧
          mapPageAt s (addressOf addr) page userFlags = some s') ∨
        (∃ f ph, physicalAlloc s.physical = some (f, ph) ∧
          mapPageAt (addSpacePage { s with physical := ph } m.space (m.pageOffset addr) f)
            (addressOf addr) f userFlags = some s')) := by
  obtain ⟨m, hm, h⟩ := bind_eq_some_iff.1 h
  obtain ⟨space, hspace, h⟩ := bind_eq_some_iff.1 h
  refine ⟨m, space, hm, hspace, ?_⟩
  cases hpage : space.pages.lookup (m.pageOffset addr) with
  | some page =>
    rw [hpage] at h
    exact .inl ⟨page, rfl, h⟩
  | none =>
    rw [hpage] at h
    obtain ⟨⟨f, ph⟩, halloc, h⟩ := bind_eq_some_iff.1 h
    exact .inr ⟨f, ph, halloc, h⟩

theorem addSpacePage_carried (s : State) (sid offset page : ℕ) : Carried s (addSpacePage s sid offset page) :=
  ⟨⟨rfl, rfl, rfl⟩, fun _ _ => rfl, fun _ => rfl, fun _ => rfl, fun _ _ => id⟩

theorem addSpacePage_spacesOk (hs : SpacesOk s) (id offset : ℕ)
    (hp : page % 4096 = 0 ∧ 0 < page ∧ page < 2 ^ 32) : SpacesOk (addSpacePage s id offset page) := by
  intro p hmem q hq
  obtain ⟨p0, hp0, rfl⟩ := mem_map.1 hmem
  split at hq
  · rcases mem_append.1 hq with hq | hq
    · exact hs p0 hp0 q hq
    · rw [mem_singleton.1 hq]
      exact hp
  · exact hs p0 hp0 q hq

theorem notCachedElsewhere_user (h : kernelPages ≤ idx) :
    NotCachedElsewhere s idx e := fun _ hk => absurd hk (Nat.not_lt.2 h)

section

variable (ht : Tables s) (hs : SpacesOk s) (haddr : addr < 2 ^ 32) (huser : kernelPages ≤ addr / 4096)
include ht hs haddr huser

theorem mapPageAt_extends (hp : page % 4096 = 0 ∧ 0 < page ∧ page < 2 ^ 32)
    (h : mapPageAt s (addressOf addr) page userFlags = some s') :
    Extends s s' ∧ MappedAt s' s.current (addr / 4096) := by
  have hdiv := addressOf_div haddr
  have hpos : addr / 4096 ≠ 0 := by
    rw [kernelPages] at huser
    omega
  obtain ⟨hts, hw, -⟩ := mapPageAt_spec ht (addressOf_lt addr)
    (by rw [hdiv]; exact ht.ne_frame huser) hp.1
    userFlags_present (by rw [hdiv]; exact notCachedElsewhere_user huser) h
  rw [hdiv] at hw
  have hentry : addressOf (page ||| userFlags) ≠ 0 := by
    rw [addressOf_or hp.1 hp.2.2 userFlags_present.1]
    exact Nat.ne_of_gt hp.2.1
  refine ⟨hw.extends ht hts hs hpos hentry, ?_⟩
  rw [MappedAt, hw.stored_current ht]
  exact hentry

/-- **A shared-memory fault.** -/
theorem shmPfHandler_extends {id : ℕ} (h : shmPfHandler s id addr = some s') :
    Extends s s' ∧ MappedAt s' s.current (addr / 4096) := by
  obtain ⟨m, space, -, hspace, hcase⟩ := shmPfHandler_cases h
  rcases hcase with ⟨page, hpage, hmap⟩ | ⟨f, ph, halloc, hmap⟩
  · exact mapPageAt_extends ht hs haddr huser
      (hs _ (mem_of_lookup hspace) _ (mem_of_lookup hpage)) hmap
  · have ha := physicalAlloc_spec halloc
    have hp := And.intro ha.aligned (And.intro ha.pos ha.lt)
    have hc := ha.carried.trans (addSpacePage_carried { s with physical := ph } m.space
      (m.pageOffset addr) f)
    have hx := hc.extends ht (fun _ => rfl) (addSpacePage_spacesOk hs m.space (m.pageOffset addr) hp)
    obtain ⟨hext, hm⟩ := mapPageAt_extends hx.tables hx.spaces haddr huser hp hmap
    exact ⟨hx.trans hext, hm⟩

/-- **A fault in a mapped file.** -/
theorem mmapRead_extends {id : ℕ} (h : mmapRead s id addr = some s') :
    Extends s s' ∧ MappedAt s' s.current (addr / 4096) := by
  obtain ⟨m, -, h⟩ := bind_eq_some_iff.1 h
  obtain ⟨-, h⟩ := ite_none_left_eq_some.1 h
  obtain ⟨-, h⟩ := ite_none_right_eq_some.1 h
  have hdiv := addressOf_div haddr
  have hflags := pagesAtFlags_present m.addr
  obtain ⟨hts, f, hnew⟩ := mapNewPageAt_spec ht (addressOf_lt addr)
    (by rw [hdiv]; exact ht.ne_frame huser) hflags
    (fun e => by rw [hdiv]; exact notCachedElsewhere_user huser) h
  rw [hdiv] at hnew
  have hentry : addressOf (f ||| pagesAtFlags m.addr) ≠ 0 := by
    rw [addressOf_or hnew.aligned hnew.lt hflags.1]
    exact Nat.ne_of_gt hnew.pos
  have hpos : addr / 4096 ≠ 0 := by
    rw [kernelPages] at huser
    omega
  refine ⟨hnew.written.extends ht hts hs hpos hentry, ?_⟩
  rw [MappedAt, hnew.written.stored_current ht]
  exact hentry

end

/-! ### Looking up -/

theorem virt2phys_fst (ht : Tables s) (haddr : addr < 2 ^ 32) (hF : addr / 4096 ≠ s.tableFrame) :
    (virt2phys s s.current addr).1 =
      if addressOf (storedEntry s s.current (addr / 4096)) = 0 then 0
      else addressOf (storedEntry s s.current (addr / 4096)) + addr % 4096 := by
  have hval := ht.getTableEntry_eq ht.live_current ht.windowed
    (show addr / 4096 < 2 ^ 20 by omega) hF
  show (if addressOf (getTableEntry s s.current (addr / 4096)).1 = 0 then 0
    else addressOf (getTableEntry s s.current (addr / 4096)).1 + addr % 4096) = _
  rw [hval]

theorem isMapped_fst (ht : Tables s) (haddr : addr < 2 ^ 32) (hF : addr / 4096 ≠ s.tableFrame) :
    (isMapped s s.current addr).1 = decide (MappedAt s s.current (addr / 4096)) := by
  show ((virt2phys s s.current addr).1 != 0) = _
  rw [virt2phys_fst ht haddr hF]
  by_cases hm : addressOf (storedEntry s s.current (addr / 4096)) = 0
  · simp [hm, MappedAt]
  · simp [hm, MappedAt]

/-- `handle_pf` only looks at the entry, or calls the handler of a region then. -/
theorem handlePf_cases (h : handlePf s d addr = some r) : r = (false, (getTableEntry s d (addr / 4096)).2) ∨
    ∃ region y, ((getTableEntry s d (addr / 4096)).2.dirs d).regions.find? (·.covers addr) = some region ∧
      region.handle (getTableEntry s d (addr / 4096)).2 addr = some y ∧ r = (true, y) := by
  simp only [handlePf] at h
  split at h
  · cases h
    exact .inl rfl
  · split at h
    · cases h
      exact .inl rfl
    · rename_i region hfind
      obtain ⟨y, hy, rfl⟩ := map_eq_some_iff.1 h
      exact .inr ⟨region, y, hfind, hy, rfl⟩

/-- **`handle_pf` on an address of user space.** -/
theorem handlePf_spec (ht : Tables s) (hs : SpacesOk s) (haddr : addr < 2 ^ 32)
    (huser : kernelPages ≤ addr / 4096) (h : handlePf s s.current addr = some r) :
    Extends s r.2 ∧ (r.1 = true → MappedAt r.2 s.current (addr / 4096)) := by
  have hidx : addr / 4096 < 2 ^ 20 := by omega
  have hq := ht.getTableEntry_quiet ht.live_current hidx
  have hx := (ht.getTableEntry_alike hidx).extends ht (ht.quiet hq) hs
  have hcase := handlePf_cases h
  generalize (getTableEntry s s.current (addr / 4096)).2 = x at hcase hx
  rcases hcase with rfl | ⟨region, y, -, hy, rfl⟩
  · exact ⟨hx, by simp⟩
  · have hboth : Extends x y ∧ MappedAt y x.current (addr / 4096) := by
      unfold Region.handle at hy
      split at hy
      · exact shmPfHandler_extends hx.tables hx.spaces haddr huser hy
      · exact mmapRead_extends hx.tables hx.spaces haddr huser hy
    rw [hx.current] at hboth
    exact ⟨hx.trans hboth.1, fun _ => hboth.2⟩

/-! ### `resolve_addr` -/

/-- The value that `resolve_addr` gives for a mapped address: its offset in the page, a whole page if
that is 0. -/
def stride (addr : ℕ) : ℕ := if addr % 4096 = 0 then 4096 else addr % 4096

theorem stride_pos (addr : ℕ) : 0 < stride addr := by
  unfold stride
  split <;> omega

theorem stride_le (addr : ℕ) : stride addr ≤ 4096 := by
  unfold stride
  split <;> omega

/-- The second half of `resolve_addr`, in a state `x` where faults have been handled. -/
def resolved (x : State) (addr : ℕ) : ℕ × State :=
  let p := virt2phys x x.current addr
  (if p.1 = 0 then 0 else if p.1 % pageSize = 0 then pageSize else p.1 % pageSize, p.2)

theorem resolved_fst (ht : Tables x) (haddr : addr < 2 ^ 32) (hF : addr / 4096 ≠ x.tableFrame) :
    (resolved x addr).1 = if MappedAt x x.current (addr / 4096) then stride addr else 0 := by
  show (if (virt2phys x x.current addr).1 = 0 then 0
    else if (virt2phys x x.current addr).1 % 4096 = 0 then 4096
    else (virt2phys x x.current addr).1 % 4096) = _
  rw [virt2phys_fst ht haddr hF]
  by_cases hm : addressOf (storedEntry x x.current (addr / 4096)) = 0
  · rw [if_pos hm, if_pos rfl, if_neg fun h => h hm]
  · have halign := addressOf_aligned (storedEntry x x.current (addr / 4096))
    have hm' : MappedAt x x.current (addr / 4096) := hm
    rw [if_neg hm, if_pos hm', if_neg (by omega)]
    have hmod : (addressOf (storedEntry x x.current (addr / 4096)) + addr % 4096) % 4096 =
        addr % 4096 := by omega
    rw [hmod]
    rfl

theorem resolved_alike (ht : Tables x) (haddr : addr < 2 ^ 32) :
    Tables (resolved x addr).2 ∧ Alike x (resolved x addr).2 := by
  have hidx : addr / 4096 < 2 ^ 20 := by omega
  exact ⟨ht.quiet (ht.getTableEntry_quiet ht.live_current hidx), ht.getTableEntry_alike hidx⟩

/-- **`resolve_addr` on an address of user space.** -/
theorem resolveAddr_spec (ht : Tables s) (hs : SpacesOk s) (haddr : addr < 2 ^ 32)
    (huser : kernelPages ≤ addr / 4096) (h : resolveAddr s addr = some r) :
    Extends s r.2 ∧ (r.1 ≠ 0 → r.1 = stride addr ∧ MappedAt r.2 s.current (addr / 4096)) := by
  obtain ⟨p, hp, heq⟩ := map_eq_some_iff.1 h
  have heq' : r = resolved p.2 addr := heq.symm
  obtain ⟨hx, -⟩ := handlePf_spec ht hs haddr huser hp
  obtain ⟨hty, hy⟩ := resolved_alike hx.tables haddr
  have hF := hx.tables.ne_frame huser
  have hext := hy.extends hx.tables hty hx.spaces
  rw [heq']
  refine ⟨hx.trans hext, ?_⟩
  rw [resolved_fst hx.tables haddr hF]
  intro hne
  split at hne
  · rename_i hm
    rw [if_pos hm]
    refine ⟨rfl, ?_⟩
    have hm' := hext.mapped _ (by omega) hF hm
    rwa [hx.current] at hm'
  · exact absurd rfl hne

/-- `resolve_addr` where `handle_pf` finds nothing to map. -/
theorem resolveAddr_kept (ht : Tables s) (haddr : addr < 2 ^ 32) (hF : addr / 4096 ≠ s.tableFrame)
    (hpf : handlePf s s.current addr = some (false, (getTableEntry s s.current (addr / 4096)).2)) :
    ∃ x, resolveAddr s addr = some (if MappedAt s s.current (addr / 4096) then stride addr else 0, x) ∧
      Tables x ∧ Alike s x := by
  have hidx : addr / 4096 < 2 ^ 20 := by omega
  have htx := ht.quiet (ht.getTableEntry_quiet ht.live_current hidx)
  have hx := ht.getTableEntry_alike hidx
  generalize (getTableEntry s s.current (addr / 4096)).2 = x at htx hx hpf
  obtain ⟨hty, hy⟩ := resolved_alike htx haddr
  have hfst := resolved_fst htx haddr (by rw [hx.kept.tableFrame]; exact hF)
  simp only [MappedAt, hx.kept.current, hx.stored _ _ ht.live_current hidx hF] at hfst
  refine ⟨(resolved x addr).2, ?_, hty, hx.trans hy⟩
  rw [resolveAddr, hpf]
  exact congrArg some (Prod.ext hfst rfl)

/-- **`resolve_addr` on a mapped address** succeeds and maps nothing. -/
theorem resolveAddr_mapped (ht : Tables s) (haddr : addr < 2 ^ 32) (hF : addr / 4096 ≠ s.tableFrame)
    (hm : MappedAt s s.current (addr / 4096)) :
    ∃ x, resolveAddr s addr = some (stride addr, x) ∧ Tables x ∧ Alike s x := by
  have hpf : handlePf s s.current addr = some (false, (getTableEntry s s.current (addr / 4096)).2) := by
    simp only [handlePf]
    rw [if_pos (by rw [isMapped_fst ht haddr hF]; exact decide_eq_true hm)]
    rfl
  simpa only [if_pos hm] using resolveAddr_kept ht haddr hF hpf

/-- **`resolve_addr` on the null page** fails. -/
theorem resolveAddr_null (ht : Tables s) (haddr : addr < 4096) (h0 : ¬MappedAt s s.current 0)
    (hr : ∀ r ∈ (s.dirs s.current).regions, 4096 ≤ r.addr) : ∃ x, resolveAddr s addr = some (0, x) := by
  have hdiv : addr / 4096 = 0 := by omega
  have hF : addr / 4096 ≠ s.tableFrame := by
    rw [hdiv]
    exact Nat.ne_of_lt ht.frame_pos
  rw [← hdiv] at h0
  have hpf : handlePf s s.current addr = some (false, (getTableEntry s s.current (addr / 4096)).2) := by
    simp only [handlePf]
    rw [if_neg (by rw [isMapped_fst ht (by omega) hF]; simpa using h0)]
    have hnone : ((isMapped s s.current addr).2.dirs s.current).regions.find?
        (·.covers addr) = none := by
      rw [find?_eq_none]
      intro r hmem hcov
      have hmem' : r ∈ ((getTableEntry s s.current (addr / 4096)).2.dirs s.current).regions := hmem
      rw [(ht.getTableEntry_alike (by omega)).kept.regions] at hmem'
      have hge := hr r hmem'
      simp only [Region.covers, Bool.and_eq_true, decide_eq_true_eq] at hcov
      omega
    rw [hnone]
    rfl
  obtain ⟨x, hx, -⟩ := resolveAddr_kept ht (by omega) hF hpf
  exact ⟨x, by rw [hx, if_neg h0]⟩

/-! ### Shared mappings -/

theorem of_shmMapChecks {id : ℕ} (h : shmMapChecks s id addr offset = true) :
    (∃ space, s.spaces.lookup id = some space) ∧ addr % 4096 = 0 := by
  unfold shmMapChecks at h
  split at h
  · cases h
  · rename_i space hspace
    simp only [Bool.and_eq_true, beq_iff_eq] at h
    exact ⟨⟨space, hspace⟩, h.1.1⟩

/-- **`shm_map`**: nothing is recorded if a check fails; otherwise the pages are freed and guarded, and
then the mapping is recorded. -/
theorem shmMap_cases {id : ℕ} (h : shmMap s id addr offset pages flags = some r) :
    (shmMapChecks s id addr offset = false ∧ r.2 = s) ∨ (shmMapChecks s id addr offset = true ∧
      ∃ x u, freePages s addr pages = some x ∧
        turns (fun i s => guardPageAt s (addr + i * pageSize)) (rangeTurns addr pages) x = some u ∧
        r.2 = shmRecord u id addr offset pages) := by
  unfold shmMap at h
  split at h
  · rename_i hchecks
    obtain ⟨x, hx, h⟩ := Option.bind_eq_some_iff.1 h
    obtain ⟨u, hu, rfl⟩ := Option.map_eq_some_iff.1 h
    exact .inr ⟨hchecks, x, u, hx, hu, rfl⟩
  · rename_i hchecks
    cases h
    exact .inl ⟨Bool.eq_false_of_not_eq_true hchecks, rfl⟩

end Btos.Kernel.Mm2
