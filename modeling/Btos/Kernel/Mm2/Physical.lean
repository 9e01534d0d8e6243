import Btos.Lib.Bits
import Btos.Lib.Word

/-!
# Physical pages

`kernel/mm2/physical.cpp`: a table of the pages of RAM, each `Free`, `InUse` or `MMIO`, and the pages
outside of RAM that have been asked for by address.  `physical_alloc` goes through the table
downwards and in a circle, starting below the page it gave out last; `physical_free` finds a page by
binary search.

* `physicalAlloc_spec`, `physicalFree_spec` — **all that the rest of the memory manager needs**: an
  allocation takes one `Free` page, a release at most makes the named page `Free`.
-/

namespace Btos.Kernel.Mm2

open Lib.Word Lib.Bits List

/-- `MM2_Page_Size`. -/
def pageSize : ℕ := 4096

/-- `MM2_Address_Mask` applied to a word: the page address in it. -/
def addressOf (e : ℕ) : ℕ := e &&& 0xFFFFF000

abbrev PageAddress := { a : ℕ // a % 4096 = 0 ∧ a < 2 ^ 32 }

inductive PageStatus where
  | free | inUse | mmio
  deriving DecidableEq, Repr

structure PhysicalPage where
  address : ℕ
  status : PageStatus
  deriving DecidableEq, Repr

/-- The page addresses of a table are distinct, page-aligned, not 0 and below 4 GiB. -/
structure TableOk (pages : List PhysicalPage) : Prop where
  nodup : (pages.map PhysicalPage.address).Nodup
  aligned : ∀ pg ∈ pages, pg.address % 4096 = 0
  bounds : ∀ pg ∈ pages, 0 < pg.address ∧ pg.address < 2 ^ 32

/-- The physical memory manager.  `pages` is `physical_pages`, `ioPages` are the addresses in
`io_pages`, `lastidx` is the static variable of `physical_alloc`. -/
structure Physical where
  pages : List PhysicalPage
  ok : TableOk pages
  ioPages : List ℕ
  lastidx : ℕ
  freePages : ℕ

/-- The page at `f` is in the table and `Free`. -/
def IsFree (ph : Physical) (f : ℕ) : Prop := ∃ pg ∈ ph.pages, pg.address = f ∧ pg.status = .free

instance (ph : Physical) (f : ℕ) : Decidable (IsFree ph f) :=
  inferInstanceAs (Decidable (∃ pg ∈ ph.pages, pg.address = f ∧ pg.status = .free))

/-! ### Marking a page -/

/-- The status of the page at address `f` is set. -/
def markPages (f : ℕ) (st : PageStatus) (pages : List PhysicalPage) : List PhysicalPage :=
  pages.map fun pg => if pg.address = f then { pg with status := st } else pg

theorem markPages_addresses (f : ℕ) (st : PageStatus) (pages : List PhysicalPage) :
    (markPages f st pages).map PhysicalPage.address = pages.map PhysicalPage.address := by
  rw [markPages, map_map]
  apply map_congr_left
  intro pg _
  simp only [Function.comp_apply]
  split <;> rfl

theorem mem_markPages : pg ∈ markPages f st pages ↔
      (pg.address ≠ f ∧ pg ∈ pages) ∨ (pg = ⟨f, st⟩ ∧ ∃ old ∈ pages, old.address = f) := by
  simp only [markPages, mem_map]
  constructor
  · rintro ⟨old, hold, rfl⟩
    by_cases hf : old.address = f
    · rw [if_pos hf]
      exact .inr ⟨by rw [hf], old, hold, hf⟩
    · rw [if_neg hf]
      exact .inl ⟨hf, hold⟩
  · rintro (⟨hne, hmem⟩ | ⟨rfl, old, hold, hf⟩)
    · exact ⟨pg, hmem, by rw [if_neg hne]⟩
    · exact ⟨old, hold, by rw [if_pos hf, hf]⟩

theorem TableOk.mark (h : TableOk pages) (f : ℕ) (st : PageStatus) : TableOk (markPages f st pages) where
  nodup := by
    rw [markPages_addresses]
    exact h.nodup
  aligned := by
    intro pg hpg
    rcases mem_markPages.1 hpg with ⟨-, hmem⟩ | ⟨rfl, old, hold, rfl⟩
    · exact h.aligned pg hmem
    · exact h.aligned old hold
  bounds := by
    intro pg hpg
    rcases mem_markPages.1 hpg with ⟨-, hmem⟩ | ⟨rfl, old, hold, rfl⟩
    · exact h.bounds pg hmem
    · exact h.bounds old hold

/-- `page->status(st)` for the page at `f`. -/
def Physical.mark (ph : Physical) (f : ℕ) (st : PageStatus) : Physical :=
  { ph with pages := markPages f st ph.pages, ok := ph.ok.mark f st }

/-! ### `physical_alloc` -/

/-- The `while` of `physical_alloc`, at most `fuel` turns of it.  `idx` is a 32-bit index, so it goes
from 0 to the top, from where the first line of the body brings it back into the table. -/
def physicalAllocLoop (ph : Physical) (maxAddr : ℕ) : ℕ → ℕ → Option (ℕ × Physical)
  | 0, _ => none
  | fuel + 1, idx =>
      if idx = ph.lastidx then none
      else
        let idx := if idx > ph.pages.length then ph.pages.length - 1 else idx
        match ph.pages[idx]? with
        | none => none
        | some pg =>
            if pg.status = .free ∧ pg.address < maxAddr then
              some (pg.address, { ph.mark pg.address .inUse with
                lastidx := idx, freePages := sub32 ph.freePages 1 })
            else physicalAllocLoop ph maxAddr fuel (sub32 idx 1)

/-- `physical_alloc(max_addr)`: the page and the manager after it.  No index comes twice, so a loop
that ends does so within as many turns as there are pages. -/
def physicalAllocBelow (ph : Physical) (maxAddr : ℕ) : Option (ℕ × Physical) :=
  physicalAllocLoop ph maxAddr (ph.pages.length + 1) (sub32 ph.lastidx 1)

def physicalAlloc (ph : Physical) : Option (ℕ × Physical) := physicalAllocBelow ph 0xFFFFFFFF

/-! ### `physical_free` -/

/-- The binary search of `find_page`, with `int` bounds. -/
def findPageLoop (pages : List PhysicalPage) (addr : ℕ) : ℕ → ℤ → ℤ → ℤ → Option ℕ
  | 0, _, _, _ => none
  | fuel + 1, min, max, guess =>
      match pages[guess.toNat]? with
      | none => none
      | some pg =>
          if pg.address = addr then some guess.toNat
          else
            let min' := if pg.address < addr then guess + 1 else min
            let max' := if pg.address < addr then max else guess - 1
            if max' < min' then none
            else findPageLoop pages addr fuel min' max' ((min' + max').tdiv 2)

/-- `find_page` in the table: the index of the page at `addr`. -/
def findPage (ph : Physical) (addr : ℕ) : Option ℕ :=
  let max : ℤ := ph.pages.length - 1
  findPageLoop ph.pages addr (ph.pages.length + 1) 0 max (max.tdiv 2)

/-- `physical_free(page)` for a page of the table. -/
def physicalFreePage (ph : Physical) (f : ℕ) : Physical :=
  match ph.pages.find? (fun pg => pg.address == f) with
  | none => ph
  | some pg =>
      let ph := if pg.status = .inUse then ph.mark f .free else ph
      if pg.status ≠ .mmio then { ph with freePages := add32 ph.freePages 1 } else ph

/-- `physical_free(addr)`.  A page of `io_pages` is `MMIO` and stays so. -/
def physicalFree (ph : Physical) (addr : ℕ) : Physical :=
  let addr := addressOf addr
  if addr ∈ ph.ioPages then ph
  else
    match findPage ph addr with
    | none => ph
    | some _ => physicalFreePage ph addr

/-! ### What they do to the free pages -/

theorem isFree_mark_inUse : IsFree (ph.mark f .inUse) g ↔ IsFree ph g ∧ g ≠ f := by
  constructor
  · rintro ⟨pg, hpg, rfl, hst⟩
    rcases mem_markPages.1 hpg with ⟨hne, hmem⟩ | ⟨rfl, -⟩
    · exact ⟨⟨pg, hmem, rfl, hst⟩, hne⟩
    · cases hst
  · rintro ⟨⟨pg, hmem, rfl, hst⟩, hne⟩
    exact ⟨pg, mem_markPages.2 (.inl ⟨hne, hmem⟩), rfl, hst⟩

theorem isFree_of_mark_free (h : IsFree (ph.mark f .free) g) : IsFree ph g ∨ g = f := by
  obtain ⟨pg, hpg, rfl, hst⟩ := h
  rcases mem_markPages.1 hpg with ⟨hne, hmem⟩ | ⟨rfl, -⟩
  · exact .inl ⟨pg, hmem, rfl, hst⟩
  · exact .inr rfl

/-- What `physical_alloc` returns was a `Free` page, and only that page has changed its status. -/
structure Allocated (ph : Physical) (f : ℕ) (ph' : Physical) : Prop where
  wasFree : IsFree ph f
  free_iff : ∀ g, IsFree ph' g ↔ IsFree ph g ∧ g ≠ f
  aligned : f % 4096 = 0
  pos : 0 < f
  lt : f < 2 ^ 32

theorem physicalAllocLoop_spec (fuel idx : ℕ)
    (h : physicalAllocLoop ph maxAddr fuel idx = some (f, ph')) : Allocated ph f ph' := by
  induction fuel generalizing idx with
  | zero => cases h
  | succ fuel ih =>
    simp only [physicalAllocLoop] at h
    split at h
    · cases h
    · split at h
      · cases h
      · rename_i pg hget
        split at h
        · rename_i hfree
          obtain ⟨rfl, rfl⟩ := Prod.mk.inj (Option.some.inj h)
          have hmem : pg ∈ ph.pages := mem_of_getElem? hget
          have hb := ph.ok.bounds pg hmem
          exact ⟨⟨pg, hmem, rfl, hfree.1⟩, fun g => isFree_mark_inUse, ph.ok.aligned pg hmem, hb.1, hb.2⟩
        · exact ih _ h

/-- **Allocation.** -/
theorem physicalAlloc_spec (h : physicalAlloc ph = some (f, ph')) : Allocated ph f ph' :=
  physicalAllocLoop_spec _ _ h

/-- **Release**, by page: at most that page becomes `Free`. -/
theorem physicalFreePage_spec (h : IsFree (physicalFreePage ph f) g) : IsFree ph g ∨ g = f := by
  unfold physicalFreePage at h
  split at h
  · exact .inl h
  · rename_i pg _
    by_cases hst : pg.status = .inUse
    · simp only [if_pos hst] at h
      split at h
      · exact isFree_of_mark_free h
      · exact isFree_of_mark_free h
    · simp only [if_neg hst] at h
      split at h
      · exact .inl h
      · exact .inl h

theorem physicalFree_spec (h : IsFree (physicalFree ph a) g) : IsFree ph g ∨ g = addressOf a := by
  simp only [physicalFree] at h
  split at h
  · exact .inl h
  · split at h
    · exact .inl h
    · exact physicalFreePage_spec h

end Btos.Kernel.Mm2
