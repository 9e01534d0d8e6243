import Btos.Kernel.Mm2.PhysicalTable
import Btos.Kernel.Mm2.Tables
import Btos.Lib.Lists

/-!
# The memory map of the boot loader

`mm2_physical_init` goes through the memory map twice: once to count pages, and once to fill the table.

* `fillTable_eq_some_iff` — **what it leaves**: the pages that were written, in order, and behind them
  the entries that were not, which have the address 0.

The memory that the loops read is not the memory of the table.
-/

namespace Btos.Kernel.Mm2

open Lib.Word Lib.Bits Option

/-! ### Reading the map -/

structure Memory where
  word : ℕ → ℕ
  word_lt : ∀ a, word a < 2 ^ 32

/-- `memory_map_t`. -/
structure MemoryMap where
  size : ℕ
  baseAddrLow : ℕ
  baseAddrHigh : ℕ
  lengthLow : ℕ
  lengthHigh : ℕ
  type : ℕ
  deriving DecidableEq, Repr

/-- What is read of `multiboot_info_t`: the `mod_end` of each module, and the place of the map. -/
structure MultibootInfo where
  modEnds : List ℕ
  mmapAddr : ℕ
  mmapLength : ℕ

/-- `*mmap`. -/
def Memory.readMap (m : Memory) (mmap : ℕ) : MemoryMap where
  size := m.word mmap
  baseAddrLow := m.word (add32 mmap 4)
  baseAddrHigh := m.word (add32 mmap 8)
  lengthLow := m.word (add32 mmap 12)
  lengthHigh := m.word (add32 mmap 16)
  type := m.word (add32 mmap 20)

/-- The `while` over the map: the entries it comes by, from `mmap` on. -/
def mapLoop (m : Memory) (stop : ℕ) : ℕ → ℕ → Option (List MemoryMap)
  | 0, _ => none
  | fuel + 1, mmap =>
      if mmap < stop then
        let e := m.readMap mmap
        (mapLoop m stop fuel (add32 (add32 mmap e.size) 4)).map (e :: ·)
      else some []

/-- All entries that the loops come by.  An end behind the address space is undefined; a pointer that
comes twice comes for ever, so `2 ^ 32` turns are enough. -/
def mapEntries (m : Memory) (mbt : MultibootInfo) : Option (List MemoryMap) :=
  if mbt.mmapAddr + 24 * mbt.mmapLength < 2 ^ 32 then
    mapLoop m (mbt.mmapAddr + 24 * mbt.mmapLength) (2 ^ 32 + 1) mbt.mmapAddr
  else none

/-! ### Counting and filling -/

/-- The two tests of both bodies: the entry is usable, and not in the low megabyte. -/
def MemoryMap.taken (e : MemoryMap) : Bool :=
  (e.type == 1 && decide (0 < e.lengthLow)) &&
    !(decide (e.baseAddrLow < 1024 * 1024) && decide (e.lengthLow < 1024 * 1024))

/-- `total_pages`. -/
def countPages (es : List MemoryMap) : ℕ :=
  es.foldl (fun total e => if e.taken then add32 total (e.lengthLow / pageSize) else total) 0

def zeroPage : PhysicalPage := ⟨0, .free⟩

/-- `physical_pages` while it is filled, and `current_page`. -/
structure Filling where
  pages : List PhysicalPage
  current : ℕ

/-- The entry at `current_page` is written. -/
def Filling.put (t : Filling) (pageAddr : ℕ) : Option Filling :=
  if t.current < t.pages.length then
    some ⟨t.pages.set t.current ⟨addressOf pageAddr, .free⟩, t.current + 1⟩
  else none

/-- The `for` over the pages of a region. -/
def fillLoop (length : ℕ) : ℕ → ℕ → Filling → Option Filling
  | 0, _, _ => none
  | fuel + 1, pageAddr, t =>
      if add32 pageAddr pageSize < length then
        (t.put pageAddr).bind (fillLoop length fuel (add32 pageAddr pageSize))
      else some t

/-- The second body.  After `2 ^ 20` turns a page comes again, and then for ever. -/
def fillRegion (e : MemoryMap) (t : Filling) : Option Filling :=
  if e.taken then fillLoop e.lengthLow (2 ^ 20 + 1) e.baseAddrLow t else some t

def fillPages : List MemoryMap → Filling → Option Filling
  | [], t => some t
  | e :: es, t => (fillRegion e t).bind (fillPages es)

/-- `mm2_physical_init` up to the call of `init_account`; `kernelEnd` is `&_end`. -/
def fillTable (m : Memory) (kernelEnd : ℕ) (mbt : MultibootInfo) : Option Pmm :=
  let endOfKernel := mbt.modEnds.foldl (fun e modEnd => if modEnd > e then modEnd else e) kernelEnd
  (mapEntries m mbt).bind fun es =>
    let total := countPages es
    -- `mm2_init_alloc(4 * total_pages)` zeroes the table; a size that wraps leaves none
    if 4 * total < 2 ^ 32 then
      (fillPages es ⟨List.replicate total zeroPage, 0⟩).map fun t =>
        { pages := t.pages, ioPages := [], lastidx := 0, freePages := total,
          endOfKernel := add32 endOfKernel (4 * total) }
    else none

/-- `mm2_physical_init`. -/
def physicalInit (m : Memory) (kernelEnd : ℕ) (mbt : MultibootInfo) : Option Pmm :=
  (fillTable m kernelEnd mbt).map Pmm.initAccount

/-! ### The pages that are counted -/

/-- The pages that an entry adds to `total_pages`. -/
def MemoryMap.pageCount (e : MemoryMap) : ℕ := if e.taken then e.lengthLow / 4096 else 0

/-- `total_pages` is the sum over the entries, as a 32-bit number. -/
theorem countPages_eq (es : List MemoryMap) :
    countPages es = (es.map MemoryMap.pageCount).sum % 2 ^ 32 := by
  have hfold : ∀ (es : List MemoryMap) (n : ℕ), n < 2 ^ 32 →
      es.foldl (fun total e => if e.taken then add32 total (e.lengthLow / pageSize) else total) n =
        (n + (es.map MemoryMap.pageCount).sum) % 2 ^ 32 := by
    intro es
    induction es with
    | nil => exact fun n hn => (Nat.mod_eq_of_lt hn).symm
    | cons e es ih =>
      intro n hn
      rw [List.foldl_cons, List.map_cons, List.sum_cons, MemoryMap.pageCount]
      by_cases he : e.taken = true
      · rw [if_pos he, if_pos he, ih _ (add32_lt _ _), add32, Nat.mod_add_mod, Nat.add_assoc]
        rfl
      · rw [if_neg he, if_neg he, ih n hn, Nat.zero_add]
  rw [countPages, hfold es 0 (by decide), Nat.zero_add]

/-! ### The pages that are written -/

/-- The pages that the `for` over a region writes. -/
def pageRun (length : ℕ) : ℕ → ℕ → Option (List ℕ)
  | 0, _ => none
  | fuel + 1, pageAddr =>
      if add32 pageAddr pageSize < length then
        (pageRun length fuel (add32 pageAddr pageSize)).map (addressOf pageAddr :: ·)
      else some []

def MemoryMap.run (e : MemoryMap) : Option (List ℕ) :=
  if e.taken then pageRun e.lengthLow (2 ^ 20 + 1) e.baseAddrLow else some []

def runs : List MemoryMap → Option (List ℕ)
  | [] => some []
  | e :: es => e.run.bind fun f => (runs es).map (f ++ ·)

/-- **The pages that are written** are those of each entry, one after the other. -/
theorem runs_eq_some_iff {es : List MemoryMap} {F : List ℕ} : runs es = some F ↔
    (∀ e ∈ es, ∃ f, e.run = some f) ∧ F = es.flatMap fun e => e.run.getD [] := by
  induction es generalizing F with
  | nil => simp [runs, eq_comm]
  | cons e es ih =>
    rw [runs, List.forall_mem_cons, List.flatMap_cons]
    cases hrun : e.run with
    | none => simp
    | some f => simp [ih, eq_comm]

theorem mem_runs (h : runs es = some F) (he : e ∈ es) : ∃ f, e.run = some f ∧ f ⊆ F := by
  obtain ⟨hall, rfl⟩ := runs_eq_some_iff.1 h
  obtain ⟨f, hf⟩ := hall e he
  exact ⟨f, hf, fun x hx => List.mem_flatMap.2 ⟨e, he, by rwa [hf]⟩⟩

theorem exists_of_mem_runs (h : runs es = some F)
    (ha : a ∈ F) : ∃ e ∈ es, ∃ f, e.run = some f ∧ a ∈ f := by
  obtain ⟨hall, rfl⟩ := runs_eq_some_iff.1 h
  obtain ⟨e, he, hmem⟩ := List.mem_flatMap.1 ha
  obtain ⟨f, hf⟩ := hall e he
  exact ⟨e, he, f, hf, by rwa [hf] at hmem⟩

def Filling.putAll : List ℕ → Filling → Option Filling
  | [], t => some t
  | a :: as, t => (t.put a).bind (Filling.putAll as)

theorem Filling.putAll_append (as bs : List ℕ) (t : Filling) :
    t.putAll (as ++ bs) = (t.putAll as).bind (Filling.putAll bs) := by
  induction as generalizing t with
  | nil => rfl
  | cons a as ih =>
    rw [List.cons_append, Filling.putAll, Filling.putAll, bind_assoc]
    exact bind_congr fun u _ => ih u

theorem fillLoop_eq (length fuel a : ℕ) (t : Filling) :
    fillLoop length fuel a t = (pageRun length fuel a).bind fun f => t.putAll f := by
  induction fuel generalizing a t with
  | zero => rfl
  | succ fuel ih =>
    rw [fillLoop, pageRun]
    by_cases hlt : add32 a pageSize < length
    · rw [if_pos hlt, if_pos hlt]
      have hput : t.put (addressOf a) = t.put a := by
        rw [Filling.put, Filling.put, addressOf_addressOf]
      cases hrun : pageRun length fuel (add32 a pageSize) with
      | none =>
        rw [map_none, bind_none, bind_eq_none_iff]
        intro u _
        rw [ih, hrun, bind_none]
      | some f =>
        rw [map_some, bind_some, Filling.putAll, hput]
        refine bind_congr fun u _ => ?_
        rw [ih, hrun, bind_some]
    · rw [if_neg hlt, if_neg hlt]
      rfl

theorem fillPages_eq (es : List MemoryMap) (t : Filling) :
    fillPages es t = (runs es).bind fun f => t.putAll f := by
  induction es generalizing t with
  | nil => rfl
  | cons e es ih =>
    have hregion : fillRegion e t = e.run.bind fun f => t.putAll f := by
      rw [fillRegion, MemoryMap.run]
      split
      · exact fillLoop_eq _ _ _ _
      · rfl
    rw [fillPages, runs, hregion, bind_assoc, bind_assoc]
    refine bind_congr fun f _ => ?_
    cases hrest : runs es with
    | none =>
      rw [map_none, bind_none, bind_eq_none_iff]
      intro u _
      rw [ih, hrest, bind_none]
    | some g =>
      rw [map_some, bind_some, Filling.putAll_append]
      refine bind_congr fun u _ => ?_
      rw [ih, hrest, bind_some]

theorem Filling.putAll_zeroes (as : List ℕ) : ∀ (front : List PhysicalPage) (k : ℕ),
    Filling.putAll as ⟨front ++ List.replicate k zeroPage, front.length⟩ =
      if as.length ≤ k then
        some ⟨front ++ as.map (fun a => ⟨addressOf a, .free⟩) ++
          List.replicate (k - as.length) zeroPage, front.length + as.length⟩
      else none := by
  induction as with
  | nil =>
    intro front k
    simp [Filling.putAll]
  | cons a as ih =>
    intro front k
    cases k with
    | zero => simp [Filling.putAll, Filling.put]
    | succ k =>
      have hset : (front ++ List.replicate (k + 1) zeroPage).set front.length
          (⟨addressOf a, .free⟩ : PhysicalPage) =
          (front ++ [⟨addressOf a, .free⟩]) ++ List.replicate k zeroPage := by
        rw [List.set_append_right _ _ (Nat.le_refl _), Nat.sub_self,
          List.append_assoc]
        rfl
      have hnext := ih (front ++ [⟨addressOf a, .free⟩]) k
      rw [List.length_append, List.length_singleton] at hnext
      have hlt : front.length < (front ++ List.replicate (k + 1)
          zeroPage).length := by
        rw [List.length_append, List.length_replicate]
        omega
      rw [Filling.putAll, Filling.put]
      simp only [if_pos hlt, hset, bind_some, hnext, List.length_cons,
        Nat.add_le_add_iff_right, Nat.add_sub_add_right, List.map_cons]
      split
      · simp [Nat.add_comm, Nat.add_left_comm]
      · rfl

/-- **What `mm2_physical_init` leaves**: the pages that were written, and behind them the entries that
were not. -/
theorem fillTable_eq_some_iff :
    fillTable m kernelEnd mbt = some p ↔
      ∃ es F, mapEntries m mbt = some es ∧ runs es = some F ∧ 4 * countPages es < 2 ^ 32 ∧
        F.length ≤ countPages es ∧
        p = { pages := F.map (fun a => ⟨addressOf a, .free⟩) ++
                List.replicate (countPages es - F.length) zeroPage
              ioPages := [], lastidx := 0, freePages := countPages es
              endOfKernel := add32 (mbt.modEnds.foldl
                (fun e modEnd => if modEnd > e then modEnd else e) kernelEnd) (4 * countPages es) } := by
  have hzeroes : ∀ F n, Filling.putAll F ⟨List.replicate n zeroPage, 0⟩ =
      if F.length ≤ n then
        some ⟨F.map (fun a => ⟨addressOf a, .free⟩) ++ List.replicate (n - F.length) zeroPage, F.length⟩
      else none := by
    intro F n
    simpa using Filling.putAll_zeroes F [] n
  simp only [fillTable, bind_eq_some_iff]
  constructor
  · rintro ⟨es, hes, h⟩
    obtain ⟨hsize, h⟩ := ite_none_right_eq_some.1 h
    obtain ⟨t, ht, rfl⟩ := map_eq_some_iff.1 h
    rw [fillPages_eq] at ht
    obtain ⟨F, hF, hput⟩ := bind_eq_some_iff.1 ht
    rw [hzeroes] at hput
    split at hput
    · rename_i hle
      cases hput
      exact ⟨es, F, hes, hF, hsize, hle, rfl⟩
    · cases hput
  · rintro ⟨es, F, hes, hF, hsize, hle, rfl⟩
    refine ⟨es, hes, ?_⟩
    rw [if_pos hsize, fillPages_eq, hF, bind_some, hzeroes, if_pos hle]
    rfl

/-! ### A map in memory -/

/-- The memory holds these entries from `a` on. -/
def Placed (m : Memory) : ℕ → List MemoryMap → Prop
  | _, [] => True
  | a, e :: es => m.readMap a = e ∧ Placed m (a + e.size + 4) es

def mapBytes (map : List MemoryMap) : ℕ := (map.map fun e => e.size + 4).sum

structure Given (m : Memory) (mbt : MultibootInfo) (map : List MemoryMap) : Prop where
  placed : Placed m mbt.mmapAddr map
  length : mbt.mmapLength = mapBytes map

theorem mapLoop_placed (hstop : stop < 2 ^ 32) (map : List MemoryMap) :
    ∀ (a fuel : ℕ) {es : List MemoryMap}, Placed m a map → a + mapBytes map ≤ stop →
      mapLoop m stop fuel a = some es → ∃ behind, es = map ++ behind := by
  induction map with
  | nil => exact fun a fuel es _ _ _ => ⟨es, rfl⟩
  | cons e map ih =>
    intro a fuel es hplaced hbytes h
    obtain ⟨hread, hrest⟩ := hplaced
    have hsum : mapBytes (e :: map) = e.size + 4 + mapBytes map := by
      rw [mapBytes, List.map_cons]
      rfl
    cases fuel with
    | zero => cases h
    | succ fuel =>
      have hnext : add32 (add32 a e.size) 4 = a + e.size + 4 := by
        rw [add32_of_lt (show a + e.size < 2 ^ 32 by omega), add32_of_lt (by omega)]
      simp only [mapLoop, hread, if_pos (show a < stop by omega), hnext] at h
      obtain ⟨es', hes', rfl⟩ := map_eq_some_iff.1 h
      obtain ⟨behind, rfl⟩ := ih _ fuel hrest (by omega) hes'
      exact ⟨behind, rfl⟩

/-- **The loops come by every entry of the map**, and then by what they find behind it. -/
theorem Given.mapEntries
    (h : Given m mbt map) (hes : mapEntries m mbt = some es) : ∃ behind, es = map ++ behind := by
  unfold Mm2.mapEntries at hes
  split at hes
  · rename_i hstop
    refine mapLoop_placed hstop map _ _ h.placed ?_ hes
    have := h.length
    omega
  · cases hes

theorem mapEntries_fields_lt (h : mapEntries m mbt = some es) (he : e ∈ es) :
    e.baseAddrLow < 2 ^ 32 ∧ e.lengthLow < 2 ^ 32 := by
  have hall : ∀ (stop fuel a : ℕ) (es : List MemoryMap), mapLoop m stop fuel a = some es →
      ∀ e ∈ es, e.baseAddrLow < 2 ^ 32 ∧ e.lengthLow < 2 ^ 32 := by
    intro stop fuel
    induction fuel with
    | zero => exact nofun
    | succ fuel ih =>
      intro a es h e he
      simp only [mapLoop] at h
      split at h
      · obtain ⟨es', hes', rfl⟩ := map_eq_some_iff.1 h
        rcases List.mem_cons.1 he with rfl | hmem
        · exact ⟨m.word_lt _, m.word_lt _⟩
        · exact ih _ es' hes' e hmem
      · cases h
        cases he
  unfold mapEntries at h
  split at h
  · exact hall _ _ _ es h e he
  · cases h

theorem mapLoop_mono (k : ℕ) (fuel : ℕ) : ∀ {a : ℕ} {es : List MemoryMap},
    mapLoop m stop fuel a = some es → mapLoop m stop (fuel + k) a = some es := by
  induction fuel with
  | zero => exact nofun
  | succ fuel ih =>
    intro a es h
    rw [Nat.succ_add]
    simp only [mapLoop] at h ⊢
    split at h
    · rename_i hlt
      obtain ⟨es', hes', rfl⟩ := map_eq_some_iff.1 h
      rw [if_pos hlt, ih hes', map_some]
    · rename_i hlt
      rw [if_neg hlt]
      exact h

end Btos.Kernel.Mm2
