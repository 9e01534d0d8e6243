import Btos.Kernel.Mm2.PhysicalInit

/-!
# The memory map and the table

What `physical_pages` should hold after `mm2_physical_init`: the whole pages of the usable regions.

* `MapOk`, `usablePages` — **a map and its usable pages**, which are in order and not more than `2 ^ 20`;
* `MemoryMap.Matched`, `MemoryMap.Silent` — **the regions that the loops do right**, and entries that write nothing;
* `MemoryMap.run_of_matched` — the loop over such a region writes the pages of it.

The table is put together in `Btos.Kernel.Mm2.PhysicalRight`.
-/

namespace Btos.Kernel.Mm2

open Lib.Word Lib.Bits Lib.Transition Option MemoryMap

/-! ### The loop over a region -/

theorem pageRun_never (h : 0xFFFFF000 + a % 4096 < length) (fuel : ℕ) : pageRun length fuel a = none := by
  induction fuel generalizing a with
  | zero => rfl
  | succ fuel ih =>
    have hnext : add32 a pageSize % 4096 = a % 4096 ∧ add32 a pageSize < length := by
      unfold add32 pageSize
      omega
    rw [pageRun, if_pos hnext.2, ih (by rw [hnext.1]; exact h), map_none]

theorem exists_of_mem_pageRun (fuel : ℕ) (ha : a < 2 ^ 32) (h : pageRun length fuel a = some f) (hx : x ∈ f) :
    ∃ b, b < 2 ^ 32 ∧ x = addressOf b ∧ b % 4096 = a % 4096 ∧ add32 b pageSize < length := by
  induction fuel generalizing a f with
  | zero => cases h
  | succ fuel ih =>
    rw [pageRun] at h
    split at h
    · rename_i hlt
      obtain ⟨g, hg, rfl⟩ := map_eq_some_iff.1 h
      rcases List.mem_cons.1 hx with rfl | hmem
      · exact ⟨a, ha, rfl, rfl, hlt⟩
      · obtain ⟨b, hb, hxb, hmod, hltb⟩ := ih (add32_lt _ _) hg hmem
        refine ⟨b, hb, hxb, ?_, hltb⟩
        rw [hmod]
        unfold add32 pageSize
        omega
    · cases h
      cases hx

theorem not_mem_pageRun (ha : a < 2 ^ 32) (h : pageRun length fuel a = some f) : 0xFFFFE000 ∉ f := by
  intro hx
  obtain ⟨b, hb, hxb, hmod, hlt⟩ := exists_of_mem_pageRun fuel ha h hx
  rw [addressOf, and_mask_eq hb] at hxb
  have hlong : 0xFFFFF000 + a % 4096 < length := by
    unfold add32 pageSize at hlt
    omega
  rw [pageRun_never hlong] at h
  cases h

/-- **The pages that are written** where nothing wraps: those from the base up to the page before the
length. -/
theorem pageRun_up (hlength : length ≤ 0xFFFFF000) (fuel : ℕ) : ∀ a : ℕ,
    a % 4096 = 0 → a ≤ 0xFFFFE000 → (length - 1 - a) / 4096 < fuel → pageRun length fuel a =
        some ((List.range ((length - 1 - a) / 4096)).map fun k => a + 4096 * k) := by
  induction fuel with
  | zero => exact fun a _ _ hfuel => absurd hfuel (Nat.not_lt_zero _)
  | succ fuel ih =>
    intro a ha hle hfuel
    have hadd : add32 a pageSize = a + 4096 := add32_of_lt (show a + 4096 < 2 ^ 32 by omega)
    rw [pageRun, hadd]
    by_cases hlt : a + 4096 < length
    · have hcount : (length - 1 - a) / 4096 = (length - 1 - (a + 4096)) / 4096 + 1 := by omega
      rw [if_pos hlt, ih (a + 4096) (by omega) (by omega) (by omega), hcount,
        List.range_succ_eq_map, List.map_cons, List.map_map, addressOf_self ha (by omega)]
      have hshift : (fun k => a + 4096 + 4096 * k) = (fun k => a + 4096 * k) ∘ Nat.succ := by
        funext k
        simp only [Function.comp_apply]
        omega
      rw [hshift]
      rfl
    · rw [if_neg hlt, show (length - 1 - a) / 4096 = 0 by omega]
      rfl

theorem pageRun_last (hpos : 0 < length) (hle : length ≤ 4096) (fuel : ℕ) :
    pageRun length (fuel + 2) 0xFFFFF000 = some [0xFFFFF000] := by
  have hwrap : add32 0xFFFFF000 pageSize = 0 := by decide
  have hnext : ¬add32 0 pageSize < length := by
    unfold add32 pageSize
    omega
  rw [pageRun, hwrap, if_pos hpos, pageRun, if_neg hnext]
  rfl

/-! ### The pages that the table is for -/

def MemoryMap.base (e : MemoryMap) : ℕ := e.baseAddrHigh * 2 ^ 32 + e.baseAddrLow

def MemoryMap.length (e : MemoryMap) : ℕ := e.lengthHigh * 2 ^ 32 + e.lengthLow

/-- A usable region that does not both start in the low megabyte and stay shorter than one. -/
def MemoryMap.wanted (e : MemoryMap) : Bool :=
  e.type == 1 && !(decide (e.base < 2 ^ 20) && decide (e.length < 2 ^ 20))

/-- The whole pages of a region that starts at a page. -/
def MemoryMap.wholePages (e : MemoryMap) : List ℕ :=
  (List.range (e.length / 4096)).map fun k => e.base + 4096 * k

/-- The pages of a region that belong into the table. -/
def MemoryMap.wantedPages (e : MemoryMap) : List ℕ := if e.wanted then e.wholePages else []

def usablePages (map : List MemoryMap) : List ℕ := map.flatMap wantedPages

/-- The usable regions start at pages, lie below 4 GiB, are sorted and do not overlap. -/
structure MapOk (map : List MemoryMap) : Prop where
  aligned : ∀ e ∈ map, e.type = 1 → e.base % 4096 = 0
  below : ∀ e ∈ map, e.type = 1 → e.base + e.length ≤ 2 ^ 32
  sorted : (map.filter fun e => e.type == 1).Pairwise fun a b => a.base + a.length ≤ b.base

variable {e : MemoryMap} {map : List MemoryMap}

theorem MemoryMap.wanted_iff : e.wanted = true ↔ e.type = 1 ∧ (2 ^ 20 ≤ e.base ∨ 2 ^ 20 ≤ e.length) := by
  simp only [wanted, Bool.and_eq_true, beq_iff_eq, Bool.not_eq_true', Bool.and_eq_false_iff,
    decide_eq_false_iff_not, Nat.not_lt]

theorem MemoryMap.taken_iff :
    e.taken = true ↔ e.type = 1 ∧ 0 < e.lengthLow ∧ (2 ^ 20 ≤ e.baseAddrLow ∨ 2 ^ 20 ≤ e.lengthLow) := by
  simp only [taken, Bool.and_eq_true, beq_iff_eq, Bool.not_eq_true', Bool.and_eq_false_iff,
    decide_eq_false_iff_not, decide_eq_true_eq, Nat.not_lt, and_assoc]
  rfl

theorem MemoryMap.mem_wholePages (haligned : e.base % 4096 = 0) :
    x ∈ e.wholePages ↔ x % 4096 = 0 ∧ e.base ≤ x ∧ x + 4096 ≤ e.base + e.length := by
  simp only [wholePages, List.mem_map, List.mem_range]
  constructor
  · rintro ⟨k, hk, rfl⟩
    omega
  · rintro ⟨hx, hle, hend⟩
    exact ⟨(x - e.base) / 4096, by omega, by omega⟩

theorem MemoryMap.length_wantedPages (e : MemoryMap) :
    e.wantedPages.length = if e.wanted then e.length / 4096 else 0 := by
  unfold wantedPages wholePages
  split
  · rw [List.length_map, List.length_range]
  · rfl

theorem MapOk.mem_usablePages (h : MapOk map) :
    x ∈ usablePages map ↔ ∃ e ∈ map, e.wanted = true ∧ x % 4096 = 0 ∧ e.base ≤ x ∧
      x + 4096 ≤ e.base + e.length := by
  simp only [usablePages, List.mem_flatMap, wantedPages]
  refine exists_congr fun e => and_congr_right fun he => ?_
  by_cases hw : e.wanted = true
  · rw [if_pos hw, mem_wholePages (h.aligned e he (wanted_iff.1 hw).1)]
    exact (and_iff_right hw).symm
  · rw [if_neg hw]
    exact iff_of_false List.not_mem_nil fun hc => hw hc.1

theorem MapOk.pairwise_usablePages (h : MapOk map) : (usablePages map).Pairwise (· < ·) := by
  rw [usablePages, List.pairwise_flatMap]
  constructor
  · intro e _
    unfold wantedPages wholePages
    split
    · rw [List.pairwise_map]
      refine List.pairwise_lt_range.imp ?_
      intro j k hjk
      omega
    · exact List.Pairwise.nil
  · have hsorted := List.pairwise_filter.1 h.sorted
    rw [List.pairwise_iff_forall_sublist] at hsorted ⊢
    intro a b hsub x hx y hy
    have ha : a ∈ map := hsub.subset List.mem_cons_self
    have hb : b ∈ map := hsub.subset (List.mem_cons_of_mem _ List.mem_cons_self)
    unfold wantedPages at hx hy
    split at hx
    · rename_i hwa
      split at hy
      · rename_i hwb
        have hta := (wanted_iff.1 hwa).1
        have htb := (wanted_iff.1 hwb).1
        rw [mem_wholePages (h.aligned a ha hta)] at hx
        rw [mem_wholePages (h.aligned b hb htb)] at hy
        have hle := hsorted hsub (beq_iff_eq.2 hta) (beq_iff_eq.2 htb)
        omega
      · cases hy
    · cases hx

theorem MapOk.nodup_usablePages (h : MapOk map) : (usablePages map).Nodup :=
  h.pairwise_usablePages.imp Nat.ne_of_lt

theorem MapOk.length_usablePages_le (h : MapOk map) : (usablePages map).length ≤ 2 ^ 20 := by
  have hsub : usablePages map ⊆ (List.range (2 ^ 20)).map fun k => 4096 * k := by
    intro x hx
    obtain ⟨e, he, hw, hmod, hle, hend⟩ := h.mem_usablePages.1 hx
    have hbelow := h.below e he (wanted_iff.1 hw).1
    refine List.mem_map.2 ⟨x / 4096, List.mem_range.2 ?_, ?_⟩ <;> omega
  have hlen := (List.subperm_of_subset h.nodup_usablePages hsub).length_le
  rwa [List.length_map, List.length_range] at hlen

/-! ### Counting and filling one region -/

/-- Counting and filling agree about the region. -/
def MemoryMap.Matched (e : MemoryMap) : Prop :=
  e.wanted = true → (e.base = 0 ∧ e.length % 4096 ≠ 0 ∧ e.length ≤ 2 ^ 32 - 4096) ∨
    (e.base = 2 ^ 32 - 4096 ∧ e.length = 4096) ∨
    (e.length < 4096 ∧ (e.base = 2 ^ 32 - 4096 → e.length = 0))

/-- The entry adds no page, to neither of the two loops. -/
def MemoryMap.Silent (e : MemoryMap) : Prop :=
  e.taken = true → e.lengthLow < 4096 ∧ e.lengthLow ≤ add32 e.baseAddrLow 4096

instance (e : MemoryMap) : Decidable e.Matched := inferInstanceAs (Decidable (_ → _))

instance (e : MemoryMap) : Decidable e.Silent := inferInstanceAs (Decidable (_ → _))

theorem MemoryMap.silent_iff : e.Silent ↔ e.pageCount = 0 ∧ e.run = some [] := by
  unfold MemoryMap.Silent pageCount run
  by_cases htaken : e.taken = true
  · rw [if_pos htaken, if_pos htaken, pageRun]
    by_cases hlt : add32 e.baseAddrLow pageSize < e.lengthLow
    · rw [if_pos hlt]
      refine iff_of_false (fun h => ?_) fun h => ?_
      · exact absurd hlt (Nat.not_lt.2 (h htaken).2)
      · obtain ⟨f, -, hf⟩ := map_eq_some_iff.1 h.2
        cases hf
    · rw [if_neg hlt]
      constructor
      · intro h
        exact ⟨Nat.div_eq_of_lt (h htaken).1, rfl⟩
      · intro h _
        exact ⟨by omega, Nat.not_lt.1 hlt⟩
  · rw [if_neg htaken, if_neg htaken]
    exact iff_of_true (fun h => absurd h htaken) ⟨rfl, rfl⟩

/-- A usable region that starts at a page and lies below 4 GiB, as two words each. -/
structure MemoryMap.Region (e : MemoryMap) : Prop where
  usable : e.type = 1
  aligned : e.base % 4096 = 0
  below : e.base + e.length ≤ 2 ^ 32
  base_lt : e.baseAddrLow < 2 ^ 32
  length_lt : e.lengthLow < 2 ^ 32

namespace MemoryMap.Region

variable {e : MemoryMap}

section

variable (h : e.Region) (hlen : e.length < 2 ^ 32)
include h hlen

/-- The code looks at the low words only; they say it all if the region has not all 4 GiB. -/
theorem low : e.lengthLow = e.length ∧ (0 < e.length → e.baseAddrLow = e.base) := by
  have hbelow := h.below
  unfold base length at *
  omega

theorem taken_iff : e.taken = true ↔ e.wanted = true ∧ 0 < e.length := by
  obtain ⟨hl, hb⟩ := h.low hlen
  rw [MemoryMap.taken_iff, MemoryMap.wanted_iff, hl]
  constructor
  · rintro ⟨htype, hpos, hlow⟩
    rw [hb hpos] at hlow
    exact ⟨⟨htype, hlow⟩, hpos⟩
  · rintro ⟨⟨htype, hlow⟩, hpos⟩
    rw [hb hpos]
    exact ⟨htype, hpos, hlow⟩

theorem pageCount_eq : e.pageCount = e.wantedPages.length := by
  rw [length_wantedPages, pageCount, (h.low hlen).1]
  by_cases hw : e.wanted = true
  · rw [if_pos hw]
    by_cases hpos : 0 < e.length
    · rw [if_pos ((h.taken_iff hlen).2 ⟨hw, hpos⟩)]
    · rw [if_neg fun ht => hpos ((h.taken_iff hlen).1 ht).2]
      omega
  · rw [if_neg hw, if_neg fun ht => hw ((h.taken_iff hlen).1 ht).1]

theorem run_nil (hnot : e.wanted = true → e.length = 0) : e.run = some [] := by
  rw [run, if_neg]
  intro htaken
  obtain ⟨hw, hpos⟩ := (h.taken_iff hlen).1 htaken
  have := hnot hw
  omega

theorem run_eq (hw : e.wanted = true) (hpos : 0 < e.length) : e.run = pageRun e.length (2 ^ 20 + 1) e.base := by
  obtain ⟨hl, hb⟩ := h.low hlen
  rw [run, if_pos ((h.taken_iff hlen).2 ⟨hw, hpos⟩), hl, hb hpos]

end

theorem run_last (h : e.Region) (hw : e.wanted = true) (hpos : 0 < e.length)
    (hbase : e.base = 0xFFFFF000) : e.run = some [0xFFFFF000] := by
  have hbelow := h.below
  rw [h.run_eq (by omega) hw hpos, hbase]
  exact pageRun_last hpos (by omega) (2 ^ 20 - 1)

theorem run_up (h : e.Region) (hw : e.wanted = true) (hpos : 0 < e.length)
    (hle : e.length ≤ 0xFFFFF000) (hbase : e.base ≠ 0xFFFFF000) :
    e.run = some ((List.range ((e.length - 1 - e.base) / 4096)).map fun k => e.base + 4096 * k) := by
  have hbelow := h.below
  have haligned := h.aligned
  rw [h.run_eq (by omega) hw hpos]
  exact pageRun_up hle _ _ haligned (by omega) (by omega)

theorem run_never (h : e.Region) (hlen : e.length < 2 ^ 32) (hw : e.wanted = true)
    (hlong : 0xFFFFF000 < e.length) : e.run = none := by
  have haligned := h.aligned
  rw [h.run_eq hlen hw (by omega)]
  exact pageRun_never (by omega) _

/-- **A matched region** has all its pages written. -/
theorem run_of_matched (h : e.Region) (hm : e.Matched) : e.length < 2 ^ 32 ∧ e.run = some e.wantedPages := by
  by_cases hw : e.wanted = true
  · have hpages : e.wantedPages = e.wholePages := if_pos hw
    rw [hpages]
    rcases hm hw with ⟨hbase, hmod, hle⟩ | ⟨hbase, hlength⟩ | ⟨hshort, hlast⟩
    · refine ⟨by omega, ?_⟩
      rw [h.run_up hw (by omega) (by omega) (by omega), wholePages, hbase,
        show (e.length - 1 - 0) / 4096 = e.length / 4096 by omega]
    · refine ⟨by omega, ?_⟩
      rw [h.run_last hw (by omega) (by omega), wholePages, hbase, hlength]
      rfl
    · have hnone : e.wholePages = [] := by
        rw [wholePages, Nat.div_eq_of_lt hshort]
        rfl
      refine ⟨by omega, ?_⟩
      rw [hnone]
      by_cases hpos : 0 < e.length
      · rw [h.run_up hw hpos (by omega) (by omega), show (e.length - 1 - e.base) / 4096 = 0 by omega]
        rfl
      · exact h.run_nil (by omega) fun _ => by omega
  · have hlt : e.length < 2 ^ 20 := by
      by_contra hge
      exact hw (wanted_iff.2 ⟨h.usable, .inr (by omega)⟩)
    refine ⟨by omega, ?_⟩
    rw [h.run_nil (by omega) fun hc => absurd hc hw, wantedPages, if_neg hw]

/-- **No region has more pages written than it has**, but for one shorter than a page in the last page;
and only a matched region has all of them written. -/
theorem length_run (h : e.Region) (hlen : e.length < 2 ^ 32) (hf : e.run = some f)
    (hlast : e.wanted = true → e.base = 0xFFFFF000 → e.length = 0 ∨ e.length = 4096) :
    f.length ≤ e.wantedPages.length ∧ (f.length = e.wantedPages.length → e.Matched) := by
  have haligned := h.aligned
  rw [length_wantedPages]
  by_cases hw : e.wanted = true
  · rw [if_pos hw]
    by_cases hpos : 0 < e.length
    · by_cases hbase : e.base = 0xFFFFF000
      · rw [h.run_last hw hpos hbase] at hf
        cases hf
        have hlength : e.length = 4096 := by
          rcases hlast hw hbase with h0 | h1 <;> omega
        rw [hlength]
        exact ⟨Nat.le_refl 1, fun _ _ => .inr (.inl ⟨by omega, hlength⟩)⟩
      · by_cases hlong : 0xFFFFF000 < e.length
        · rw [h.run_never hlen hw hlong] at hf
          cases hf
        · rw [h.run_up hw hpos (by omega) hbase] at hf
          cases hf
          rw [List.length_map, List.length_range]
          refine ⟨by omega, ?_⟩
          intro heq _
          by_cases hzero : e.base = 0
          · exact .inl ⟨hzero, by omega, by omega⟩
          · exact .inr (.inr ⟨by omega, fun hc => absurd hc (by omega)⟩)
    · rw [h.run_nil hlen fun _ => by omega] at hf
      cases hf
      exact ⟨Nat.zero_le _, fun _ _ => .inr (.inr ⟨by omega, fun _ => by omega⟩)⟩
  · rw [h.run_nil hlen fun hc => absurd hc hw] at hf
    cases hf
    exact ⟨Nat.zero_le _, fun _ hc => absurd hc hw⟩

end MemoryMap.Region

end Btos.Kernel.Mm2
