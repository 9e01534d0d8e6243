import Btos.Kernel.Mm2.FrameSafety

/-!
# What is left of a space that is closed

`shm_close` is to take everything of a space away: its mappings, their regions, and its pages out of
every process.  Its loop ends after one turn, and `remove_region` goes by the address alone.

* `ShmClosed` — **nothing of the space is left**, and the mappings of other spaces are as they were;
* `shmClose_closed_iff` — where the page tables and the books are sound, the first **holds exactly under
  the second**.
-/

namespace Btos.Kernel.Mm2

open Lib.Lists Lib.Ownership Lib.Transition List Bool

/-- The region is that of a mapping of the space. -/
def Region.ofSpace (s : State) (id : ℕ) (r : Region) : Bool :=
  s.mappings.any fun x => x.1 == r.id && x.2.space == id

/-- **The space is closed.**  Its mappings and regions are gone, and its pages are mapped nowhere; the
other mappings, their regions and their pages are as before. -/
structure ShmClosed (s : State) (id : ℕ) (s' : State) : Prop where
  mappings : s'.mappings = s.mappings.filter fun x => x.2.space != id
  regions : ∀ d, s.live d = true → (s'.dirs d).regions = (s.dirs d).regions.filter fun r => !r.ofSpace s id
  pages : ∀ f, InSpace s id f → ∀ d idx, ¬Refers s' d idx f
  others : ∀ x ∈ s.mappings, x.2.space ≠ id → s.live x.2.pid = true → ∀ idx, x.2.InRange idx →
    storedEntry s' x.2.pid idx = storedEntry s x.2.pid idx

structure Closable (s : State) (id : ℕ) : Prop where
  one : OneMapping s id
  region : ∀ x ∈ s.mappings, x.2.space = id → (s.dirs x.2.pid).regions.filter (·.ofSpace s id) =
    ((s.dirs x.2.pid).regions.find? fun r => r.addr == x.2.addr).toList
  alone : ∀ x ∈ s.mappings, x.2.space = id → ∀ y ∈ s.mappings, y.2.space ≠ id →
    y.2.pid = x.2.pid → ∀ idx, ¬(x.2.InRange idx ∧ y.2.InRange idx)

theorem ShmMapping.InRange.user {m : ShmMapping} (hin : m.InRange idx) (hu : kernelBoundary ≤ m.addr) :
    kernelPages ≤ idx ∧ idx < 2 ^ 20 := by
  obtain ⟨hle, hlt⟩ := hin
  simp only [kernelBoundary, kernelPages, Lib.Word.add32] at *
  omega

theorem Owned.not_refers (ht : Tables s) (ho : Owned s) (hnone : ∀ x ∈ s.mappings, x.2.space ≠ a)
    (hf : InSpace s a f) : ¬Refers s d idx f := by
  intro hr
  by_cases hF : idx = s.tableFrame
  · subst hF
    exact ho.not_isTable hf (hr.isTable ht ho)
  · obtain ⟨x, hx, hsp, -⟩ := ho.sound.covered _ f a ⟨d, idx, rfl, hr.maps hF⟩ hf
    exact hnone x hx hsp

theorem not_ofSpace {id : ℕ} (hnone : ∀ x ∈ s.mappings, x.2.space ≠ id) (r : Region) :
    r.ofSpace s id = false := by
  rw [Region.ofSpace, any_eq_false]
  intro x hx hand
  exact hnone x hx (by simpa using (and_eq_true_iff.1 hand).2)

section Closing

variable {s x : State} {id mid : ℕ} {m : ShmMapping} {ph : Physical} {sp : List (ℕ × ShmSpace)} (ho : Owned s)
  (hm : (mid, m) ∈ s.mappings) (hc : MapClosed s x mid m)
include ho hm hc

theorem closable_of_closed (ht : Tables s) (h : ShmClosed s id { x with physical := ph, spaces := sp }) :
    Closable s id := by
  have hb := ho.books
  -- a mapping of the space is the one that was closed
  have honly : ∀ y ∈ s.mappings, y.2.space = id → y = (mid, m) := by
    intro y hy hyid
    have hmap : x.mappings = s.mappings.filter fun x => x.2.space != id := h.mappings
    have hnot : y ∉ s.mappings.filter fun p => p.1 != mid := by
      rw [← hc.mappings, hmap]
      simp [hyid]
    refine hb.mapping_unique y hy _ hm ?_
    by_contra hne
    exact hnot (mem_filter.2 ⟨hy, bne_iff_ne.2 hne⟩)
  refine ⟨fun y hy z hz hyid hzid => (honly y hy hyid).trans (honly z hz hzid).symm, ?_, ?_⟩
  · intro y hy hyid
    have hregions : (x.dirs m.pid).regions = _ := h.regions m.pid hc.alive
    rw [hc.regions, if_pos rfl, eraseP_eq_filter_not_iff] at hregions
    rw [honly y hy hyid]
    exact hregions
  · rintro y hy hyid z hz hzid hpid idx ⟨hin, hin'⟩
    rw [honly y hy hyid] at hin hpid
    have hsame : storedEntry x z.2.pid idx = _ := h.others z hz hzid (hpid ▸ hc.alive) idx hin'
    obtain ⟨hp, hfree⟩ := hc.page idx hin
    rw [← hpid, hsame] at hp hfree
    obtain ⟨hu, hlt⟩ := hin.user (hb.mapping_addr _ hm).1
    have hne : idx ≠ s.tableFrame := ht.ne_frame hu
    exact ho.sound.used _ _ ⟨z.2.pid, idx, rfl, hpid ▸ hc.alive, hlt, hne, hp, rfl⟩ hfree

theorem closed_of_closable (htx : Tables x) (hox : Owned x) (hid : m.space = id) (h : Closable s id) :
    ShmClosed s id { x with physical := ph, spaces := sp } := by
  have hb := ho.books
  have hkey : ∀ y ∈ s.mappings, y.1 = mid ↔ y.2.space = id := by
    intro y hy
    refine ⟨fun heq => ?_, fun heq => by rw [h.one y hy _ hm heq hid]⟩
    rw [hb.mapping_unique y hy _ hm heq]
    exact hid
  have hmap : x.mappings = s.mappings.filter fun y => y.2.space != id := by
    rw [hc.mappings]
    refine filter_congr fun y hy => ?_
    rw [Bool.eq_iff_iff, bne_iff_ne, bne_iff_ne, Ne, hkey y hy]
  refine ⟨hmap, fun d hd => ?_, ?_, ?_⟩
  · refine (hc.regions d).trans ?_
    by_cases hpid : d = m.pid
    · rw [if_pos hpid, hpid, eraseP_eq_filter_not_iff]
      exact h.region _ hm hid
    · rw [if_neg hpid, eq_comm, filter_eq_self]
      intro r hr
      rw [not_eq_true', Region.ofSpace, any_eq_false]
      rintro ⟨i, m'⟩ hy hand
      obtain ⟨hi, hsp⟩ := and_eq_true_iff.1 hand
      obtain rfl : i = r.id := beq_iff_eq.1 hi
      -- the books have the region in the directory of the mapping
      obtain ⟨-, rfl⟩ := Prod.mk.inj (h.one _ hy _ hm (beq_iff_eq.1 hsp) hid)
      exact hpid ((hb.regions d hd r hr).2.2 m' hy).1.symm
  · intro f hf d idx hr
    have hnone : ∀ y ∈ x.mappings, y.2.space ≠ id := by
      intro y hy
      rw [hmap] at hy
      exact bne_iff_ne.1 (mem_filter.1 hy).2
    rw [InSpace, ← hc.spaces] at hf
    exact hox.not_refers htx hnone hf hr
  · intro y hy hyid hlive idx hin
    obtain ⟨hu, hlt⟩ := hin.user (hb.mapping_addr y hy).1
    refine hc.other y.2.pid idx hlive hu hlt ?_
    rintro ⟨hpid, hin'⟩
    exact h.alone _ hm hid y hy hyid hpid idx ⟨hin', hin⟩

end Closing

/-- **`shm_close` of an existing space closes it exactly if** it has one mapping at most, whose region is
the first one at its address, and no mapping of another space lies on the same pages. -/
theorem shmClose_closed_iff {s s' : State} {id : ℕ} (ht : Tables s) (ho : Owned s)
    (h : shmClose s id = some s') : ShmClosed s id s' ↔ Closable s id := by
  obtain ⟨-, -, h⟩ := Option.bind_eq_some_iff.1 h
  obtain ⟨x, hx, h⟩ := Option.bind_eq_some_iff.1 h
  obtain ⟨space, hspace, rfl⟩ := Option.map_eq_some_iff.1 h
  cases hfind : s.mappings.find? (fun p => p.2.space == id) with
  | none =>
    rw [hfind] at hx
    cases hx
    have hnone : ∀ y ∈ s.mappings, y.2.space ≠ id := by
      intro y hy
      simpa using find?_eq_none.1 hfind y hy
    refine iff_of_true ⟨?_, fun d _ => ?_, fun f hf d idx hr => ho.not_refers ht hnone hf hr, fun _ _ _ _ _ _ => rfl⟩
      ⟨fun y hy _ _ hyid => absurd hyid (hnone y hy), fun y hy hyid => absurd hyid (hnone y hy),
        fun y hy hyid => absurd hyid (hnone y hy)⟩
    · rw [eq_comm, filter_eq_self]
      exact fun y hy => bne_iff_ne.2 (hnone y hy)
    · rw [eq_comm, filter_eq_self]
      exact fun r _ => by rw [not_ofSpace hnone r]; rfl
  | some p =>
    rw [hfind] at hx
    have hp := mem_of_find?_eq_some hfind
    have hid : p.2.space = id := by simpa using find?_some hfind
    obtain ⟨htx, hox, hclosed⟩ := shmCloseMap_spec ht ho (ho.books.lookup_mapping hp) hx
    exact ⟨closable_of_closed ho hp hclosed ht, closed_of_closable ho hp hclosed htx hox hid⟩

/-- A space with the one page that a process maps and has touched. -/
theorem shmClose_closed_touched : ∃ s s' f, Reach memStep MemOk (boot smallBoot) s ∧
    shmClose s 1 = some s' ∧ Refers s 1 0x40000 f ∧ InSpace s 1 f ∧ ShmClosed s 1 s' := by
  obtain ⟨s, hreach, hs⟩ := Reach.of_exec_check memStep MemOk (processRuns ++ touchShared) (boot smallBoot)
    (fun s => (shmClose s 1).isSome && s.live 1 && present (storedEntry s 1 0x40000) && decide (s.mappings.map (·.2.space) = [1]) &&
    decide (∃ x ∈ s.spaces, x.1 = 1 ∧ ∃ q ∈ x.2.pages, q.2 = addressOf (storedEntry s 1 0x40000)) &&
    decide (∀ x ∈ s.mappings, (s.dirs x.2.pid).regions.filter (·.ofSpace s 1) =
      ((s.dirs x.2.pid).regions.find? fun r => r.addr == x.2.addr).toList)) guarded_touchShared (by decide +kernel)
  simp only [and_eq_true, decide_eq_true_eq] at hs
  obtain ⟨⟨⟨⟨⟨hsome, hlive⟩, hp⟩, hspaces⟩, hin⟩, hregion⟩ := hs
  obtain ⟨s', hs'⟩ := Option.isSome_iff_exists.1 hsome
  obtain ⟨ht, ho⟩ := owned_of_memOk hreach
  obtain ⟨x, hx, hx1⟩ := map_eq_singleton_iff.1 hspaces
  refine ⟨s, s', _, hreach, hs', ⟨hlive, by decide, hp, rfl⟩, hin, (shmClose_closed_iff ht ho hs').2 ⟨?_, ?_, ?_⟩⟩
  · intro y hy z hz _ _
    rw [hx, mem_singleton] at hy hz
    rw [hy, hz]
  · exact fun y hy _ => hregion y hy
  · intro y _ _ z hz hzid
    rw [hx, mem_singleton] at hz
    exact absurd (hz ▸ hx1) hzid

/-- **A space with two mappings**: one of them stays. -/
theorem shmClose_leaves_mapping : ∃ s s', Reach memStep anyStep (boot smallBoot) s ∧
    shmClose s 1 = some s' ∧ ¬ShmClosed s 1 s' := by
  obtain ⟨s, hreach, hs⟩ := Reach.of_exec_check memStep anyStep
    (processRuns ++ [.shmCreate 0, .shmMap 1 0x40000000 0 1 0, .shmMap 1 0x40001000 0 1 0]) (boot smallBoot)
    (fun s => (shmClose s 1).map (fun t => t.mappings.any (·.2.space == 1)) == some true)
    (guarded_anyStep _ _ _) (by decide +kernel)
  obtain ⟨s', hs', hany⟩ := Option.map_eq_some_iff.1 (beq_iff_eq.1 hs)
  refine ⟨s, s', hreach, hs', fun hc => ?_⟩
  obtain ⟨x, hx, hspace⟩ := any_eq_true.1 hany
  rw [hc.mappings] at hx
  exact bne_iff_ne.1 (mem_filter.1 hx).2 (beq_iff_eq.1 hspace)

end Btos.Kernel.Mm2
