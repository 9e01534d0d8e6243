import Btos.Kernel.Mm2.PhysicalMap

/-!
# When the table of physical pages is right

`InitRight` says what `mm2_physical_init` is for: the table holds exactly the pages of the usable
regions, and each page is found by its address, then and at any later time.

* `physicalInit_right_iff` — **the table is right exactly if** every region of the map is matched and
  every entry that the loops find behind the map is silent.
-/

namespace Btos.Kernel.Mm2

open Lib.Word Lib.Bits Lib.Transition Lib.Lists Option MemoryMap

/-- The table is exactly the pages of the usable regions, and in every later state `find_page` returns
the entry of each, so that `physical_free` and `physical_mark_used` reach it. -/
def InitRight (m : Memory) (kernelEnd : ℕ) (mbt : MultibootInfo) (map : List MemoryMap) : Prop :=
  ∃ p, physicalInit m kernelEnd mbt = some p ∧ p.addresses.Perm (usablePages map) ∧
    ∀ q, Reach pmmStep anyStep p q → ∀ i pg, q.pages[i]? = some pg → q.findPage pg.address = some (.table i) ∧
      ∀ addr, addressOf addr = pg.address →
        q.free addr = q.freePage (.table i) ∧ q.markUsed addr = q.setStatus (.table i) .inUse

/-! ### What is written -/

variable {e : MemoryMap} {es : List MemoryMap} {m : Memory} {mbt : MultibootInfo}

theorem runs_eq_flatMap (h : ∀ e ∈ es, e.run = some (g e)) : runs es = some (es.flatMap g) := by
  refine runs_eq_some_iff.2 ⟨fun e he => ⟨_, h e he⟩, List.flatMap_congr fun e he => ?_⟩
  rw [h e he, getD_some]

theorem mem_run (hbase : e.baseAddrLow < 2 ^ 32) (h : e.run = some f) (hx : x ∈ f) :
    x ≠ 0xFFFFE000 ∧ e.taken = true ∧ ∃ b, b < 2 ^ 32 ∧ x = addressOf b ∧ add32 b pageSize < e.lengthLow := by
  unfold run at h
  split at h
  · rename_i htaken
    obtain ⟨b, hb, hxb, -, hlt⟩ := exists_of_mem_pageRun _ hbase h hx
    refine ⟨?_, htaken, b, hb, hxb, hlt⟩
    rintro rfl
    exact not_mem_pageRun hbase h hx
  · cases h
    cases hx

/-- The addresses in the table after `mm2_physical_init`. -/
theorem physicalInit_addresses (h : physicalInit m kernelEnd mbt = some p) :
    ∃ es F, mapEntries m mbt = some es ∧ runs es = some F ∧ F.length ≤ countPages es ∧
      p.addresses = F ++ List.replicate (countPages es - F.length) 0 ∧ p.ioPages = [] := by
  obtain ⟨t, ht, rfl⟩ := map_eq_some_iff.1 h
  obtain ⟨es, F, hes, hF, -, hle, rfl⟩ := fillTable_eq_some_iff.1 ht
  refine ⟨es, F, hes, hF, hle, ?_, rfl⟩
  rw [Pmm.addresses_initAccount]
  have hmask : F.map (PhysicalPage.address ∘ fun a => ⟨addressOf a, .free⟩) = F := by
    refine (List.map_congr_left ?_).trans (List.map_id F)
    intro x hx
    obtain ⟨e, he, f, hf, hxf⟩ := exists_of_mem_runs hF hx
    obtain ⟨-, -, b, -, rfl, -⟩ := mem_run (mapEntries_fields_lt hes he).1 hf hxf
    exact addressOf_addressOf b
  rw [Pmm.addresses, List.map_append, List.map_map, hmask, List.map_replicate]
  rfl

/-! ### From a right table to the map -/

section

variable {map behind : List MemoryMap} {F : List ℕ}

section

variable (hok : MapOk map)
include hok

theorem MapOk.region (he : e ∈ map)
    (hfields : e.baseAddrLow < 2 ^ 32 ∧ e.lengthLow < 2 ^ 32) (htype : e.type = 1) : e.Region :=
  ⟨htype, hok.aligned e he htype, hok.below e he htype, hfields.1, hfields.2⟩

/-- A page that is in the table only if the page below it is not: the last one, as a region of its
own. -/
theorem MapOk.last_page (hno : 0xFFFFE000 ∉ usablePages map)
    (hlast : 0xFFFFF000 ∈ usablePages map) :
    ∃ e ∈ map, e.wanted = true ∧ e.base = 0xFFFFF000 ∧ e.length = 4096 := by
  obtain ⟨e, he, hw, -, hle, hend⟩ := hok.mem_usablePages.1 hlast
  have hbelow := hok.below e he (wanted_iff.1 hw).1
  have haligned := hok.aligned e he (wanted_iff.1 hw).1
  have hbase : e.base = 0xFFFFF000 := by
    by_contra hne
    exact hno (hok.mem_usablePages.2 ⟨e, he, hw, rfl, by omega, by omega⟩)
  exact ⟨e, he, hw, hbase, by omega⟩

theorem MapOk.length_lt (hno : 0xFFFFE000 ∉ usablePages map) (he : e ∈ map)
    (htype : e.type = 1) : e.length < 2 ^ 32 := by
  have hbelow := hok.below e he htype
  by_contra hge
  refine hno (hok.mem_usablePages.2 ⟨e, he, ?_, rfl, by omega, by omega⟩)
  exact wanted_iff.2 ⟨htype, .inr (by omega)⟩

theorem pageCount_behind (hfields : ∀ e ∈ map, e.baseAddrLow < 2 ^ 32 ∧ e.lengthLow < 2 ^ 32)
    (hlens : ∀ e ∈ map, e.type = 1 → e.length < 2 ^ 32)
    (hcount : ((map ++ behind).map pageCount).sum = (usablePages map).length) :
    ∀ e ∈ behind, e.pageCount = 0 := by
  have hmap : map.map pageCount = map.map fun e => e.wantedPages.length := by
    refine List.map_congr_left ?_
    intro e he
    by_cases htype : e.type = 1
    · exact (hok.region he (hfields e he) htype).pageCount_eq (hlens e he htype)
    · rw [length_wantedPages, pageCount, if_neg fun h => htype (wanted_iff.1 h).1,
        if_neg fun h => htype (taken_iff.1 h).1]
  rw [List.map_append, List.sum_append, hmap, usablePages, List.length_flatMap] at hcount
  have hzero : (behind.map pageCount).sum ≤ (behind.map fun _ => 0).sum := by omega
  exact fun e he => (forall_eq_of_sum_le (fun e _ => Nat.zero_le e.pageCount) hzero e he).symm

theorem no_zeroes (hfields : ∀ e ∈ map, e.baseAddrLow < 2 ^ 32 ∧ e.lengthLow < 2 ^ 32)
    (hlens : ∀ e ∈ map, e.type = 1 → e.length < 2 ^ 32) (hruns : runs (map ++ behind) = some F)
    (hperm : (F ++ List.replicate k 0).Perm (usablePages map)) : k = 0 := by
  by_contra hk
  have hzero : 0 ∈ List.replicate k 0 := List.mem_replicate.2 ⟨hk, rfl⟩
  obtain ⟨e, he, hw, -, hbase, hend⟩ :=
    hok.mem_usablePages.1 (hperm.mem_iff.1 (List.mem_append_right F hzero))
  obtain ⟨htype, hlow⟩ := wanted_iff.1 hw
  have hregion := hok.region he (hfields e he) htype
  obtain ⟨f, hf, hsub⟩ := mem_runs hruns (List.mem_append_left behind he)
  -- the region is long, so its first page was written
  have hwritten : 0 ∈ f := by
    by_cases hlong : 0xFFFFF000 < e.length
    · rw [hregion.run_never (hlens e he htype) hw hlong] at hf
      cases hf
    · rw [hregion.run_up hw (by omega) (by omega) (by omega)] at hf
      cases hf
      refine List.mem_map.2 ⟨0, List.mem_range.2 ?_, by omega⟩
      omega
  have hnodup := hperm.nodup_iff.2 hok.nodup_usablePages
  exact (List.nodup_append.1 hnodup).2.2 0 (hsub hwritten) 0 hzero rfl

end

end

/-- The pages of a right table, as they are written for the map and for the entries behind it. -/
structure WrittenPages (map behind : List MemoryMap) (front back : List ℕ) : Prop where
  ok : MapOk map
  fields : ∀ e ∈ map ++ behind, e.baseAddrLow < 2 ^ 32 ∧ e.lengthLow < 2 ^ 32
  runsMap : runs map = some front
  runsBehind : runs behind = some back
  perm : (front ++ back).Perm (usablePages map)
  below : 0xFFFFE000 ∉ usablePages map
  counted : ∀ e ∈ behind, e.pageCount = 0

namespace WrittenPages

variable {map behind : List MemoryMap} {front back : List ℕ}

section

variable (h : WrittenPages map behind front back)
include h

theorem region (he : e ∈ map) (htype : e.type = 1) : e.Region :=
  h.ok.region he (h.fields e (List.mem_append_left behind he)) htype

theorem nodup : (front ++ back).Nodup := h.perm.nodup_iff.2 h.ok.nodup_usablePages

/-- Nothing is written behind the map: it would be the last page, and that one is written for its own
region already. -/
theorem run_behind : ∀ e ∈ behind, e.run = some [] := by
  intro e he
  obtain ⟨f, hf, hsub⟩ := mem_runs h.runsBehind he
  cases f with
  | nil => exact hf
  | cons x f =>
    exfalso
    have hfields := h.fields e (List.mem_append_right map he)
    obtain ⟨-, htaken, b, hb, hxb, hlt⟩ := mem_run hfields.1 hf List.mem_cons_self
    have hshort := h.counted e he
    rw [pageCount, if_pos htaken] at hshort
    have hx : x = 0xFFFFF000 := by
      rw [hxb, addressOf, and_mask_eq hb]
      unfold add32 pageSize at hlt
      omega
    have hback : 0xFFFFF000 ∈ back := hx ▸ hsub List.mem_cons_self
    obtain ⟨e', he', hw', hbase', hlen'⟩ := h.ok.last_page h.below
      (h.perm.mem_iff.1 (List.mem_append_right front hback))
    obtain ⟨f', hf', hsub'⟩ := mem_runs h.runsMap he'
    rw [(h.region he' (wanted_iff.1 hw').1).run_last hw' (by omega) hbase'] at hf'
    cases hf'
    exact (List.nodup_append.1 h.nodup).2.2 _ (hsub' List.mem_cons_self) _ hback rfl

theorem last_region (he : e ∈ map) (hw : e.wanted = true)
    (hbase : e.base = 0xFFFFF000) : e.length = 0 ∨ e.length = 4096 := by
  by_cases hpos : 0 < e.length
  · obtain ⟨f, hf, hsub⟩ := mem_runs h.runsMap he
    rw [(h.region he (wanted_iff.1 hw).1).run_last hw hpos hbase] at hf
    cases hf
    obtain ⟨e', he', hw', hbase', hlen'⟩ := h.ok.last_page h.below
      (h.perm.mem_iff.1 (List.mem_append_left back (hsub List.mem_cons_self)))
    have hin : ∀ {e : MemoryMap}, e ∈ map → e.wanted = true →
        e ∈ map.filter fun e => e.type == 1 := fun he hw =>
      List.mem_filter.2 ⟨he, beq_iff_eq.2 (wanted_iff.1 hw).1⟩
    rcases pairwise_or_of_mem h.ok.sorted (hin he hw) (hin he' hw') with rfl | hlt | hgt
    · exact .inr hlen'
    · omega
    · omega
  · exact .inl (by omega)

/-- **Every region is matched**: none has more than its pages written, and all pages are written. -/
theorem matched : ∀ e ∈ map, e.Matched := by
  have hempty : back = [] := by
    have hflat := runs_eq_flatMap h.run_behind
    rw [h.runsBehind] at hflat
    rw [Option.some.inj hflat]
    exact List.flatMap_eq_nil_iff.2 fun _ _ => rfl
  have hbound : ∀ e ∈ map, (e.run.getD []).length ≤ e.wantedPages.length ∧
      ((e.run.getD []).length = e.wantedPages.length → e.Matched) := by
    intro e he
    by_cases htype : e.type = 1
    · obtain ⟨f, hf, -⟩ := mem_runs h.runsMap he
      rw [hf, getD_some]
      exact (h.region he htype).length_run (h.ok.length_lt h.below he htype) hf (h.last_region he)
    · rw [run, if_neg fun ht => htype (taken_iff.1 ht).1]
      exact ⟨Nat.zero_le _, fun _ hw => absurd (wanted_iff.1 hw).1 htype⟩
  have hsum : (map.map fun e => e.wantedPages.length).sum ≤ (map.map fun e => (e.run.getD []).length).sum := by
    rw [← List.length_flatMap, ← List.length_flatMap, ← (runs_eq_some_iff.1 h.runsMap).2]
    refine Nat.le_of_eq ?_
    rw [← usablePages, ← h.perm.length_eq, hempty, List.append_nil]
  exact fun e he => (hbound e he).2 (forall_eq_of_sum_le (fun e he => (hbound e he).1) hsum e he)

end

end WrittenPages

/-- **From the table back to the map.** -/
theorem matched_of_perm (hok : MapOk map)
    (hfields : ∀ e ∈ map ++ behind, e.baseAddrLow < 2 ^ 32 ∧ e.lengthLow < 2 ^ 32)
    (hruns : runs (map ++ behind) = some F) (hle : F.length ≤ ((map ++ behind).map pageCount).sum)
    (hperm : (F ++ List.replicate (((map ++ behind).map pageCount).sum - F.length) 0).Perm
      (usablePages map)) : (∀ e ∈ map, e.Matched) ∧ ∀ e ∈ behind, e.Silent := by
  have hmapFields : ∀ e ∈ map, e.baseAddrLow < 2 ^ 32 ∧ e.lengthLow < 2 ^ 32 := fun e he =>
    hfields e (List.mem_append_left behind he)
  -- the page below the last one is not in the table
  have hbelow : 0xFFFFE000 ∉ usablePages map := by
    intro hmem
    rcases List.mem_append.1 (hperm.mem_iff.2 hmem) with hin | hin
    · obtain ⟨e, he, f, hf, hxf⟩ := exists_of_mem_runs hruns hin
      exact (mem_run (hfields e he).1 hf hxf).1 rfl
    · exact absurd (List.mem_replicate.1 hin).2 (by decide)
  have hlens : ∀ e ∈ map, e.type = 1 → e.length < 2 ^ 32 := fun e he => hok.length_lt hbelow he
  have hcount : ((map ++ behind).map pageCount).sum = (usablePages map).length := by
    have hlen := hperm.length_eq
    rw [List.length_append, List.length_replicate] at hlen
    omega
  have hfull := no_zeroes hok hmapFields hlens hruns hperm
  rw [hfull, List.replicate_zero, List.append_nil] at hperm
  obtain ⟨hall, rfl⟩ := runs_eq_some_iff.1 hruns
  rw [List.flatMap_append] at hperm
  rw [List.forall_mem_append] at hall
  have hwritten : WrittenPages map behind _ _ :=
    ⟨hok, hfields, runs_eq_some_iff.2 ⟨hall.1, rfl⟩, runs_eq_some_iff.2 ⟨hall.2, rfl⟩, hperm, hbelow,
      pageCount_behind hok hmapFields hlens hcount⟩
  exact ⟨hwritten.matched, fun e he =>
    silent_iff.2 ⟨hwritten.counted e he, hwritten.run_behind e he⟩⟩

/-! ### The theorem -/

/-- **When the table is right.**  `mm2_physical_init` returns with the whole pages of the usable regions
in the table, each found at any later time, and without an overflow of `total_pages`, exactly if the
loops end, every region of the map is matched, and every entry they find behind the map is silent. -/
theorem physicalInit_right_iff {m : Memory} {kernelEnd : ℕ} {mbt : MultibootInfo}
    {map : List MemoryMap} (hgiven : Given m mbt map) (hok : MapOk map) : (InitRight m kernelEnd mbt map ∧
      ∀ es, mapEntries m mbt = some es → (es.map pageCount).sum < 2 ^ 32) ↔
    ∃ behind, mapEntries m mbt = some (map ++ behind) ∧ (∀ e ∈ map, e.Matched) ∧ ∀ e ∈ behind, e.Silent := by
  constructor
  · rintro ⟨⟨p, hp, hperm, -⟩, hsum⟩
    obtain ⟨es, F, hes, hF, hle, haddr, -⟩ := physicalInit_addresses hp
    obtain ⟨behind, rfl⟩ := hgiven.mapEntries hes
    have hcount := countPages_eq (map ++ behind)
    rw [Nat.mod_eq_of_lt (hsum _ hes)] at hcount
    rw [hcount] at hle haddr
    rw [haddr] at hperm
    exact ⟨behind, hes, matched_of_perm hok (fun e he => mapEntries_fields_lt hes he) hF hle hperm⟩
  · rintro ⟨behind, hes, hmatched, hsilent⟩
    have hmap : ∀ e ∈ map, e.run = some e.wantedPages ∧ e.pageCount = e.wantedPages.length := by
      intro e he
      by_cases htype : e.type = 1
      · have hregion := hok.region he (mapEntries_fields_lt hes (List.mem_append_left behind he)) htype
        obtain ⟨hlen, hrun⟩ := hregion.run_of_matched (hmatched e he)
        exact ⟨hrun, hregion.pageCount_eq hlen⟩
      · have htaken : ¬e.taken = true := fun h => htype (taken_iff.1 h).1
        have hwanted : ¬e.wanted = true := fun h => htype (wanted_iff.1 h).1
        rw [run, pageCount, wantedPages, if_neg htaken, if_neg htaken, if_neg hwanted]
        exact ⟨rfl, rfl⟩
    have hruns : runs (map ++ behind) = some (usablePages map) := by
      have hfront := runs_eq_some_iff.1 (runs_eq_flatMap fun e he => (hmap e he).1)
      have hback := runs_eq_some_iff.1 (runs_eq_flatMap fun e he => (silent_iff.1 (hsilent e he)).2)
      refine runs_eq_some_iff.2 ⟨List.forall_mem_append.2 ⟨hfront.1, hback.1⟩, ?_⟩
      rw [List.flatMap_append, ← hfront.2, ← hback.2, List.flatMap_eq_nil_iff.2 fun _ _ => rfl, List.append_nil]
      rfl
    have hsum : ((map ++ behind).map pageCount).sum = (usablePages map).length := by
      rw [List.map_append, List.sum_append, List.map_congr_left fun e he => (hmap e he).2,
        List.map_congr_left fun e he => (silent_iff.1 (hsilent e he)).1,
        usablePages, List.length_flatMap, List.map_const', List.sum_replicate]
      rfl
    have hsmall := hok.length_usablePages_le
    have hcount : countPages (map ++ behind) = (usablePages map).length := by
      rw [countPages_eq, hsum, Nat.mod_eq_of_lt (by omega)]
    obtain ⟨t, ht⟩ : ∃ t, fillTable m kernelEnd mbt = some t :=
      ⟨_, fillTable_eq_some_iff.2 ⟨_, _, hes, hruns, by omega, Nat.le_of_eq hcount.symm, rfl⟩⟩
    obtain ⟨p, hp⟩ : ∃ p, physicalInit m kernelEnd mbt = some p :=
      ⟨_, map_eq_some_iff.2 ⟨t, ht, rfl⟩⟩
    have haddr : p.addresses = usablePages map ∧ p.ioPages = [] := by
      obtain ⟨es', F', hes', hF', -, haddr, hio⟩ := physicalInit_addresses hp
      rw [hes] at hes'
      cases hes'
      rw [hruns] at hF'
      cases hF'
      rw [hcount, Nat.sub_self, List.replicate_zero, List.append_nil] at haddr
      exact ⟨haddr, hio⟩
    refine ⟨⟨p, hp, List.Perm.of_eq haddr.1, ?_⟩, ?_⟩
    · intro q hq i pg hget
      have hsorted : p.Sorted := by
        refine ⟨?_, ?_⟩
        · rw [haddr.1]
          exact hok.pairwise_usablePages
        · rw [haddr.2]
          simp
      exact Pmm.found_of_sorted hsorted hq hget
    · intro es' hes'
      rw [hes] at hes'
      cases hes'
      omega

/-! ### Two machines -/

def usableRegion (base length : ℕ) : MemoryMap := ⟨20, base, 0, length, 0, 1⟩

/-- A memory that holds a map at `0x1000`, and zeroes. -/
def loadedMap (map : List MemoryMap) : Memory where
  word a := ((map.flatMap fun e => [e.size, e.baseAddrLow, e.baseAddrHigh, e.lengthLow, e.lengthHigh,
    e.type])[(a - 0x1000) / 4]?.getD 0) % 2 ^ 32
  word_lt _ := Nat.mod_lt _ (Nat.two_pow_pos 32)

/-- The map is at `0x1000`, and there are no modules. -/
def loadedInfo (map : List MemoryMap) : MultibootInfo := ⟨[], 0x1000, mapBytes map⟩

theorem mapEntries_of_mapLoop (hstop : mbt.mmapAddr + 24 * mbt.mmapLength < 2 ^ 32)
    (h : mapLoop m (mbt.mmapAddr + 24 * mbt.mmapLength) 300 mbt.mmapAddr = some es) :
    mapEntries m mbt = some es := by
  rw [mapEntries, if_pos hstop]
  exact mapLoop_mono (2 ^ 32 + 1 - 300) 300 h

/-- One region from 0 to the middle of page 256: behind the map the loops find 138 entries of zeroes. -/
def evenMachine : List MemoryMap := [usableRegion 0 0x100800]

theorem physicalInit_right_evenMachine :
    InitRight (loadedMap evenMachine) 0x80000 (loadedInfo evenMachine) evenMachine := by
  have hentries : mapEntries (loadedMap evenMachine) (loadedInfo evenMachine) =
      some (evenMachine ++ List.replicate 138 ⟨0, 0, 0, 0, 0, 0⟩) :=
    mapEntries_of_mapLoop (by decide) (by decide +kernel)
  have hgiven : Given (loadedMap evenMachine) (loadedInfo evenMachine) evenMachine :=
    ⟨⟨by decide, trivial⟩, rfl⟩
  have hok : MapOk evenMachine := ⟨by decide, by decide, by decide⟩
  refine ((physicalInit_right_iff hgiven hok).2 ⟨_, hentries, by decide, ?_⟩).1
  intro e he
  rw [(List.mem_replicate.1 he).2]
  decide

/-- The low memory and two pages from 1 MiB on. -/
def usualMachine : List MemoryMap := [usableRegion 0 0x9FC00, usableRegion 0x100000 0x2000]

theorem usualMachine_table : fillTable (loadedMap usualMachine) 0x80000 (loadedInfo usualMachine) =
    some ⟨[zeroPage, zeroPage], [], 0, 2, 0x80008⟩ := by
  have hentries : mapEntries (loadedMap usualMachine) (loadedInfo usualMachine) =
      some (usualMachine ++ List.replicate 276 ⟨0, 0, 0, 0, 0, 0⟩) :=
    mapEntries_of_mapLoop (by decide) (by decide +kernel)
  have hcount : countPages (usualMachine ++ List.replicate 276 ⟨0, 0, 0, 0, 0, 0⟩) = 2 := by
    decide +kernel
  refine fillTable_eq_some_iff.2 ⟨_, [], hentries, by decide +kernel, ?_, ?_, ?_⟩ <;>
    rw [hcount] <;> decide

/-- **The table of the usual machine is wrong**: there are two entries for its two pages, but neither
page is in the table, and neither is found. -/
theorem physicalInit_wrong :
    Given (loadedMap usualMachine) (loadedInfo usualMachine) usualMachine ∧ MapOk usualMachine ∧
      usablePages usualMachine = [0x100000, 0x101000] ∧
      ∃ p, physicalInit (loadedMap usualMachine) 0x80000 (loadedInfo usualMachine) = some p ∧
        p.addresses = [0, 0] ∧ p.findPage 0x100000 = none ∧ p.findPage 0x101000 = none := by
  have hinit := congrArg (Option.map Pmm.initAccount) usualMachine_table
  exact ⟨⟨⟨by decide, by decide, trivial⟩, rfl⟩, ⟨by decide, by decide, by decide⟩, by decide, _, hinit,
    by decide⟩

end Btos.Kernel.Mm2
