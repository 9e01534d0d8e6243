import Btos.Kernel.Mm2.FrameShm

/-!
# Closing shared memory

`shm_close_map` maps a new page at every address of the mapping, in the directory of its process, so
that no page of the space is mapped there any more; `shm_close` closes the first mapping of the space
and frees the pages of the space.

* `MapClosed`, `shmCloseMap_spec` — what closing a mapping does to lists and entries: **it asks for nothing**.
-/

namespace Btos.Kernel.Mm2

open Lib.Word Lib.Loop Lib.Lists Lib.Ownership List Option

variable {s s' : State}

/-! ### The loop -/

theorem removeRegion_carried (s : State) (addr : ℕ) : Carried s (removeRegion s s.current addr) :=
  setDir_carried rfl rfl

theorem removeRegion_owned (ht : Tables s) (ho : Owned s) (addr : ℕ) :
    Tables (removeRegion s s.current addr) ∧ Owned (removeRegion s s.current addr) := by
  have hc := removeRegion_carried s addr
  have hregions : ∀ d r, r ∈ ((removeRegion s s.current addr).dirs d).regions → r ∈ (s.dirs d).regions := by
    intro d r hr
    by_cases hd : d = s.current
    · subst hd
      simp only [removeRegion, setDir_self] at hr
      exact mem_of_mem_eraseP hr
    · simpa only [removeRegion, setDir_of_ne _ _ hd] using hr
  exact hc.owned ht ho (fun _ => id) (fun _ _ => Iff.rfl) (fun _ _ => id) (ho.books.sub ho.books.kernel_live
    (fun d hd r hr => ⟨hd, hregions d r hr⟩) (fun _ => id) (fun _ => id) rfl rfl)

/-- The current directory has new pages, `n` from page `first` on; the rest of user space is as before. -/
structure Renewed (s s' : State) (first n : ℕ) : Prop where
  kept : Kept s s'
  free : ∀ g, IsFree s'.physical g → IsFree s.physical g
  page : ∀ i < n, present (storedEntry s' s.current (first + i)) = true ∧
    IsFree s.physical (addressOf (storedEntry s' s.current (first + i)))
  other : ∀ d idx, s.live d = true → kernelPages ≤ idx → idx < 2 ^ 20 →
    (d = s.current → ∀ i < n, idx ≠ first + i) → storedEntry s' d idx = storedEntry s d idx

/-- **One more page.** -/
theorem Renewed.snoc (h : Renewed s u first i) (htu : Tables u) (hu : kernelPages ≤ first)
    (hlt : first + i < 2 ^ 20) (hnew : NewPage u v (first + i) f userFlags) : Renewed s v first (i + 1) := by
  have hw := hnew.written
  refine ⟨h.kept.trans hw.kept, fun g hg => h.free g (hnew.free g hg).1, fun j hj => ?_, ?_⟩
  · by_cases hji : j = i
    · subst hji
      have hst := hw.stored_current htu
      rw [h.kept.current] at hst
      rw [hst, addressOf_or hnew.aligned hnew.lt userFlags_present.1]
      exact ⟨userFlags_present.present hnew.aligned, h.free f hnew.wasFree⟩
    · have hst := hw.other s.current (first + j) (by rw [← h.kept.current]; exact htu.live_current)
        (by omega) (htu.ne_frame (by omega)) fun hh => hji (by omega)
      rw [hst]
      exact h.page j (by omega)
  · intro d idx hd hidx hidxlt hout
    rw [← h.other d idx hd hidx hidxlt fun hc j hj => hout hc j (by omega)]
    refine hw.other d idx (by rw [h.kept.live]; exact hd) hidxlt (htu.ne_frame hidx) ?_
    rintro ⟨rfl, -, hc | hk⟩
    · rw [hw.kept.current, h.kept.current] at hc
      exact hout hc i (Nat.lt_succ_self i) rfl
    · omega

theorem Renewed.notShared (h : Renewed s s' first n) (ho : Owned s) (hi : i < n) :
    NotShared s' (first + i) := by
  intro _ a ha
  rw [h.kept.current] at ha
  exact ho.sound.member_used a _ ((h.kept.member a _).1 ha) (h.page i hi).2

/-- **The loop of `shm_close_map`**: every page of the range is a new one. -/
theorem mapNewPages_renewed (ht : Tables s) (ho : Owned s) (hu : kernelBoundary ≤ addr)
    (hlt : ∀ i < n, addr + i * 4096 < 2 ^ 32)
    (h : turns (fun i s => mapNewPageAt s (addr + i * pageSize) userFlags) n s = some s') :
    Tables s' ∧ Owned s' ∧ Renewed s s' (addr / 4096) n := by
  have hpage : ∀ i, (addr + i * 4096) / 4096 = addr / 4096 + i := by
    intro i
    omega
  have huser := user_page_iff.2 hu
  refine mapNew_rule userFlags_present (fun i u => Owned u ∧ Renewed s u (addr / 4096) i) ht
    ⟨ho, Kept.refl s, fun _ => id, fun i hi => absurd hi (Nat.not_lt_zero i), fun _ _ _ _ _ _ => rfl⟩
    hlt ?_ ?_ h
  · intro i _ u htu _
    have hui : kernelPages ≤ addr / 4096 + i := by omega
    rw [hpage]
    exact ⟨htu.ne_frame hui, fun e => notCachedElsewhere_user hui⟩
  · rintro i hi u v f htu ⟨hou, hsu⟩ - hnew
    rw [hpage] at hnew
    have := hlt i hi
    exact ⟨hnew.owned userFlags_present.1 hou, hsu.snoc htu huser (by omega) hnew⟩

/-! ### Closing a mapping -/

theorem ShmMapping.InRange.turn {m : ShmMapping} {idx : ℕ} (h : m.InRange idx) (halign : m.addr % 4096 = 0) :
    ∃ i < rangeTurns m.addr m.pages, idx = m.addr / 4096 + i := by
  refine ⟨idx - m.addr / 4096, ?_, ?_⟩
  · have := h.1
    have := h.2
    simp only [rangeTurns, pageSize] at *
    omega
  · have := h.1
    omega

theorem inRange_of_turn {m : ShmMapping} (halign : m.addr % 4096 = 0) (hi : i < rangeTurns m.addr m.pages) :
    m.InRange (m.addr / 4096 + i) := by
  simp only [ShmMapping.InRange, rangeTurns, pageSize] at *
  omega

theorem slot_eq_some (h : slot d i = (some e, j)) : d = e ∧ i = j := by
  obtain ⟨h1, h2⟩ := Prod.mk.inj h
  split at h1
  · cases h1
  · exact ⟨Option.some.inj h1, h2⟩

/-- **A mapping is forgotten** once no page in its range is shared. -/
theorem forgetMapping_owned {id : ℕ} {m : ShmMapping} (ht : Tables s) (ho : Owned s)
    (hm : (id, m) ∈ s.mappings) (hcur : m.pid = s.current)
    (hns : ∀ i < rangeTurns m.addr m.pages, NotShared s (m.addr / 4096 + i)) :
    Tables { s with mappings := s.mappings.filter fun p => p.1 != id } ∧
      Owned { s with mappings := s.mappings.filter fun p => p.1 != id } := by
  have hc : Carried s { s with mappings := s.mappings.filter fun p => p.1 != id } :=
    ⟨⟨rfl, rfl, rfl⟩, fun _ _ => rfl, fun _ => rfl, fun _ => rfl, fun _ _ hf => hf⟩
  have hb := ho.books
  refine ⟨hc.tables ht, ho.shows, ?_, ?_⟩
  · refine ho.sound.drop ?_ (fun _ hf => .inl hf) (fun _ _ hf => .inl hf) (fun _ _ hf => hf)
      (fun _ _ _ _ hf => hf) ?_
    · rintro p f ⟨d, idx, rfl, hmaps⟩
      exact ⟨d, idx, rfl, hmaps.of_stored hmaps.live rfl rfl⟩
    · rintro p f a ⟨d, idx, rfl, hmaps⟩ hmem ⟨x, hx, hsp, j, hp, hin⟩
      obtain ⟨rfl, rfl⟩ := slot_eq_some hp
      refine ⟨x, mem_filter.2 ⟨hx, ?_⟩, hsp, idx, hp, hin⟩
      rw [bne_iff_ne]
      intro hxid
      -- the mapping that is closed covers no shared page
      have hxm := hb.mapping_unique x hx _ hm hxid
      subst hxm
      obtain ⟨i, hi, rfl⟩ := hin.turn (hb.mapping_addr _ hm).2
      have hpres := hmaps.isPresent
      have haddr := hmaps.address
      have hst : storedEntry s m.pid (m.addr / 4096 + i) =
          storedEntry s s.current (m.addr / 4096 + i) := by rw [hcur]
      refine hns i hi (hst ▸ hpres) a ?_
      rw [← hst]
      exact haddr ▸ hmem
  · exact hb.sub hb.kernel_live (fun _ hd _ hr => ⟨hd, hr⟩) (fun _ hx => (mem_filter.1 hx).1) (fun _ hx => hx) rfl rfl

theorem Books.lookup_mapping (hb : Books s) (hp : p ∈ s.mappings) : s.mappings.lookup p.1 = some p.2 := by
  cases hm : s.mappings.lookup p.1 with
  | none => exact absurd (lookup_eq_none_iff.1 hm p hp) (by simp)
  | some m => rw [hb.mapping_unique p hp _ (mem_of_lookup hm) rfl]

/-- What `shm_close_map` does to the lists and to the entries of user space. -/
structure MapClosed (s s' : State) (id : ℕ) (m : ShmMapping) : Prop where
  alive : s.live m.pid = true
  live : s'.live = s.live
  spaces : s'.spaces = s.spaces
  mappings : s'.mappings = s.mappings.filter fun p => p.1 != id
  regions : ∀ d, (s'.dirs d).regions = if d = m.pid then
    (s.dirs d).regions.eraseP fun r => r.addr == m.addr else (s.dirs d).regions
  page : ∀ idx, m.InRange idx → present (storedEntry s' m.pid idx) = true ∧
    IsFree s.physical (addressOf (storedEntry s' m.pid idx))
  other : ∀ d idx, s.live d = true → kernelPages ≤ idx → idx < 2 ^ 20 →
    ¬(d = m.pid ∧ m.InRange idx) → storedEntry s' d idx = storedEntry s d idx

/-- **`shm_close_map`.** -/
theorem shmCloseMap_spec {id : ℕ} (ht : Tables s) (ho : Owned s) (hm : s.mappings.lookup id = some m)
    (h : shmCloseMap s id = some s') : Tables s' ∧ Owned s' ∧ MapClosed s s' id m := by
  have hmem := mem_of_lookup hm
  obtain ⟨hbase, halign⟩ := ho.books.mapping_addr _ hmem
  simp only [shmCloseMap, hm] at h
  obtain ⟨hlive, h⟩ := ite_none_right_eq_some.1 h
  -- to the directory of the mapping
  have hsp := mm2Switch_spread ht hlive
  have hcur := mm2Switch_current s m.pid
  have ht1 := hsp.tables ht
  have ho1 := hsp.owned ht ho
  generalize mm2Switch s m.pid = s1 at h hcur ht1 ho1 hsp
  obtain ⟨ht2, ho2⟩ := removeRegion_owned ht1 ho1 m.addr
  -- the pages are replaced
  obtain ⟨u, hu, h⟩ := bind_eq_some_iff.1 h
  obtain ⟨htu, hou, hru⟩ := mapNewPages_renewed ht2 ho2 hbase (fun i hi => lt_of_lt_rangeTurns hi) hu
  have hcur2 : (removeRegion s1 s1.current m.addr).current = m.pid := hcur
  have hmp : u.mappings = s.mappings := hru.kept.mappings.trans (by rw [hsp.rest]; rfl)
  have hmemu : (id, m) ∈ u.mappings := by rwa [hmp]
  obtain ⟨htw, how⟩ := forgetMapping_owned htu hou hmemu (by rw [hru.kept.current, hcur2])
    fun i hi => hru.notShared ho2 hi
  obtain ⟨hback, h⟩ := ite_none_right_eq_some.1 h
  cases h
  -- and back
  have hsp' := mm2Switch_spread htw hback
  refine ⟨hsp'.tables htw, hsp'.owned htw how, hlive, ?_, ?_, ?_, fun d => ?_, fun idx hin => ?_, ?_⟩
  · rw [hsp'.live]
    exact hru.kept.live.trans hsp.live
  · rw [hsp'.rest]
    exact hru.kept.spaces.trans (by rw [hsp.rest]; rfl)
  · rw [hsp'.rest, ← hmp]
  · rw [hsp'.regions, ← hsp.regions d]
    refine (hru.kept.regions d).trans ?_
    by_cases hd : d = m.pid
    · rw [if_pos hd, removeRegion, hd, ← hcur, setDir_self]
    · rw [if_neg hd, removeRegion, setDir_of_ne _ _ (by rw [hcur]; exact hd)]
  · obtain ⟨i, hi, rfl⟩ := hin.turn halign
    have hpage := hru.page i hi
    rw [hcur2] at hpage
    rw [hsp'.stored_user m.pid (by simp only [kernelBoundary, kernelPages] at *; omega)]
    exact ⟨hpage.1, hsp.physical ▸ hpage.2⟩
  · intro d idx hd hidx hlt hout
    have hd1 : s1.live d = true := by rwa [hsp.live]
    rw [hsp'.stored_user d hidx, ← hsp.stored_user d hidx, ← (removeRegion_carried s1 m.addr).stored hd1 hlt]
    refine hru.other d idx hd1 hidx hlt fun hc i hi heq => ?_
    refine hout ⟨hc.trans hcur2, ?_⟩
    rw [heq]
    exact inRange_of_turn halign hi

theorem shmCloseMap_owned {id : ℕ} (ht : Tables s) (ho : Owned s) (h : shmCloseMap s id = some s') :
    Tables s' ∧ Owned s' := by
  cases hm : s.mappings.lookup id with
  | none =>
    simp only [shmCloseMap, hm] at h
    cases h
    exact ⟨ht, ho⟩
  | some m =>
    obtain ⟨hts, hos, -⟩ := shmCloseMap_spec ht ho hm h
    exact ⟨hts, hos⟩

/-! ### Closing a space -/

theorem foldl_physicalFreePage {pages : List (ℕ × ℕ)} : ∀ {ph : Physical},
    IsFree (pages.foldl (fun ph p => physicalFreePage ph p.2) ph) g → IsFree ph g ∨ ∃ q ∈ pages, q.2 = g := by
  induction pages with
  | nil =>
    intro ph h
    exact .inl h
  | cons q pages ih =>
    intro ph h
    rcases ih h with h | ⟨q', hq', heq⟩
    · exact (physicalFreePage_spec h).imp_right fun heq => ⟨q, mem_cons_self, heq.symm⟩
    · exact .inr ⟨q', mem_cons_of_mem _ hq', heq⟩

/-- **A space without a mapping is freed.** -/
theorem freeSpace_owned {id : ℕ} {space : ShmSpace} (ht : Tables s) (ho : Owned s)
    (hspace : (id, space) ∈ s.spaces) (hnone : ∀ x ∈ s.mappings, x.2.space ≠ id) : Tables { s with
      physical := space.pages.foldl (fun ph p => physicalFreePage ph p.2) s.physical
      spaces := s.spaces.filter fun p => p.1 != id } ∧
    Owned { s with
      physical := space.pages.foldl (fun ph p => physicalFreePage ph p.2) s.physical
      spaces := s.spaces.filter fun p => p.1 != id } := by
  have hfree : ∀ {g}, IsFree (space.pages.foldl (fun ph p => physicalFreePage ph p.2) s.physical) g →
      IsFree s.physical g ∨ InSpace s id g := by
    intro g hg
    exact (foldl_physicalFreePage hg).imp_right fun ⟨q, hq, heq⟩ => ⟨_, hspace, rfl, q, hq, heq⟩
  have hunmapped : ∀ p f, (view s).refs p f → ¬InSpace s id f := by
    intro p f hp hm
    obtain ⟨x, hx, hsp, -⟩ := ho.sound.covered p f id hp hm
    exact hnone x hx hsp
  have hmember : ∀ {a f}, (∃ x ∈ s.spaces.filter (fun p => p.1 != id), x.1 = a ∧
      ∃ q ∈ x.2.pages, q.2 = f) → InSpace s a f ∧ a ≠ id := by
    rintro a f ⟨x, hx, rfl, hq⟩
    obtain ⟨hx, hne⟩ := mem_filter.1 hx
    exact ⟨⟨x, hx, rfl, hq⟩, bne_iff_ne.1 hne⟩
  generalize hph : space.pages.foldl (fun ph p => physicalFreePage ph p.2) s.physical = ph at hfree
  have hc : Carried s { s with physical := ph, spaces := s.spaces.filter fun p => p.1 != id } := by
    refine ⟨⟨rfl, rfl, rfl⟩, fun _ _ => rfl, fun _ => rfl, fun _ => rfl, ?_⟩
    intro g hg hf
    exact (hfree hf).resolve_right fun hm => ho.not_isTable hm hg
  have hold : ∀ {d idx f}, Maps { s with physical := ph, spaces := s.spaces.filter fun p => p.1 != id } d idx f →
      (view s).refs (slot d idx) f :=
    fun {d idx _} hm => ⟨d, idx, rfl, hm.of_stored hm.live rfl rfl⟩
  refine ⟨hc.tables ht, ho.shows, ?_, ho.books.sub ho.books.kernel_live (fun _ hd _ hr => ⟨hd, hr⟩) (fun _ hx => hx)
    (fun _ hx => (mem_filter.1 hx).1) rfl rfl⟩
  refine ho.sound.drop ?_ ?_ (fun _ _ hf => .inl hf) (fun a f hm => (hmember hm).1) ?_
    (fun _ _ _ _ _ hcov => hcov)
  · rintro p f ⟨d, idx, rfl, hm⟩
    exact hold hm
  · intro f hf
    refine (hfree hf).imp_right fun hm => ⟨?_, ?_⟩
    · rintro p ⟨d, idx, rfl, hmaps⟩
      exact hunmapped _ f (hold hmaps) hm
    · intro a ha
      obtain ⟨ha, hne⟩ := hmember ha
      exact hne (ho.sound.single a id f ha hm)
  · rintro p f a ⟨d, idx, rfl, hmaps⟩ hm
    have hne : a ≠ id := by
      rintro rfl
      exact hunmapped _ f (hold hmaps) hm
    obtain ⟨x, hx, rfl, hq⟩ := hm
    exact ⟨x, mem_filter.2 ⟨hx, bne_iff_ne.2 hne⟩, rfl, hq⟩

def OneMapping (s : State) (id : ℕ) : Prop :=
  ∀ x ∈ s.mappings, ∀ y ∈ s.mappings, x.2.space = id → y.2.space = id → x = y

/-- **`shm_close`** of a space with one mapping at most. -/
theorem shmClose_owned {id : ℕ} (ht : Tables s) (ho : Owned s) (hone : OneMapping s id)
    (h : shmClose s id = some s') : Tables s' ∧ Owned s' := by
  obtain ⟨-, -, h⟩ := bind_eq_some_iff.1 h
  obtain ⟨x, hx, h⟩ := bind_eq_some_iff.1 h
  obtain ⟨space, hspace, rfl⟩ := map_eq_some_iff.1 h
  cases hfind : s.mappings.find? (fun p => p.2.space == id) with
  | none =>
    rw [hfind] at hx
    cases hx
    refine freeSpace_owned ht ho (mem_of_lookup hspace) fun y hy => ?_
    have := find?_eq_none.1 hfind y hy
    simpa using this
  | some p =>
    rw [hfind] at hx
    have hp := mem_of_find?_eq_some hfind
    have hpid : p.2.space = id := by simpa using find?_some hfind
    obtain ⟨htx, hox, hclosed⟩ := shmCloseMap_spec ht ho (ho.books.lookup_mapping hp) hx
    refine freeSpace_owned htx hox (mem_of_lookup hspace) fun y hy hyid => ?_
    rw [hclosed.mappings] at hy
    obtain ⟨hy, hne⟩ := mem_filter.1 hy
    exact bne_iff_ne.1 hne (by rw [hone y hy p hp hyid hpid])

end Btos.Kernel.Mm2
