import Btos.Kernel.Mm2.Physical
import Btos.Lib.Transition

/-!
# The table of physical pages, with nothing assumed about it

`kernel/mm2/physical.cpp` once more, one level below `Btos.Kernel.Mm2.Physical`: a `physical_page *`
is the place of an entry, in `physical_pages` or in `io_pages`, and the addresses in the table may be
anything.

* `findPageLoop_found` — **the binary search is right** where the table is sorted;
* `returned_toPmm` — **both levels give out the same pages** in every sequence of calls.
-/

namespace Btos.Kernel.Mm2

open Lib.Word Lib.Transition List PhysicalPage

/-! ### The operations -/

/-- The static variables of `physical.cpp`; `total_pages` is the length of `physical_pages`. -/
structure Pmm where
  pages : List PhysicalPage
  ioPages : List PhysicalPage
  lastidx : ℕ
  freePages : ℕ
  endOfKernel : ℕ
  deriving DecidableEq, Repr

/-- A `physical_page *`. -/
inductive PageRef where
  | table (i : ℕ)
  | io (i : ℕ)
  deriving DecidableEq, Repr

def Pmm.page (p : Pmm) : PageRef → Option PhysicalPage
  | .table i => p.pages[i]?
  | .io i => p.ioPages[i]?

def Pmm.status (p : Pmm) (r : PageRef) : Option PageStatus := (p.page r).map PhysicalPage.status

/-- `page->status(st)`. -/
def Pmm.setStatus (p : Pmm) (r : PageRef) (st : PageStatus) : Pmm :=
  match r with
  | .table i => { p with pages := p.pages.modify i fun pg => { pg with status := st } }
  | .io i => { p with ioPages := p.ioPages.modify i fun pg => { pg with status := st } }

/-- `init_account`: what is below the end of the kernel is in use. -/
def Pmm.initAccount (p : Pmm) : Pmm :=
  { p with
    pages := p.pages.map fun pg =>
      if pg.address < p.endOfKernel then { pg with status := .inUse } else pg }

/-- `mm2_init_alloc(size)`, once there is a table. -/
def Pmm.initAlloc (p : Pmm) (size : ℕ) : Pmm :=
  Pmm.initAccount { p with endOfKernel := add32 p.endOfKernel size }

/-- The `while` of `physical_alloc`. -/
def Pmm.allocLoop (p : Pmm) (maxAddr : ℕ) : ℕ → ℕ → Option (ℕ × Pmm)
  | 0, _ => none
  | fuel + 1, idx =>
      if idx = p.lastidx then none
      else
        let idx := if idx > p.pages.length then p.pages.length - 1 else idx
        match p.pages[idx]? with
        | none => none
        | some pg =>
            if pg.status = .free ∧ pg.address < maxAddr then
              some (idx, { p.setStatus (.table idx) .inUse with
                lastidx := idx, freePages := sub32 p.freePages 1 })
            else p.allocLoop maxAddr fuel (sub32 idx 1)

/-- `physical_alloc(max_addr)`: the index of the page and the manager after it; `none` is a panic. -/
def Pmm.alloc (p : Pmm) (maxAddr : ℕ) : Option (ℕ × Pmm) :=
  p.allocLoop maxAddr (p.pages.length + 1) (sub32 p.lastidx 1)

/-- `physical_free(page)`; the second test reads the status again. -/
def Pmm.freePage (p : Pmm) (r : PageRef) : Pmm :=
  let p := if p.status r = some .inUse then p.setStatus r .free else p
  if p.status r ≠ some .mmio then { p with freePages := add32 p.freePages 1 } else p

/-- `find_page`: first `io_pages`, then the table. -/
def Pmm.findPage (p : Pmm) (addr : ℕ) : Option PageRef :=
  match p.ioPages.findIdx? fun pg => pg.address == addr with
  | some i => some (.io i)
  | none =>
      let max : ℤ := p.pages.length - 1
      (findPageLoop p.pages addr (p.pages.length + 1) 0 max (max.tdiv 2)).map .table

/-- `physical_free(addr)`. -/
def Pmm.free (p : Pmm) (addr : ℕ) : Pmm :=
  match p.findPage (addressOf addr) with
  | some r => p.freePage r
  | none => p

/-- `physical_mark_used(addr)`. -/
def Pmm.markUsed (p : Pmm) (addr : ℕ) : Pmm :=
  match p.findPage (addressOf addr) with
  | some r => p.setStatus r .inUse
  | none => p

/-- `physical_get_io_page(addr)`. -/
def Pmm.getIoPage (p : Pmm) (addr : ℕ) : Pmm :=
  match p.findPage (addressOf addr) with
  | some _ => p
  | none => { p with ioPages := p.ioPages ++ [⟨addressOf addr, .mmio⟩] }

/-! ### The manager as a system -/

inductive PmmAct where
  | alloc (maxAddr : ℕ)
  | freePage (r : PageRef)
  | free (addr : ℕ)
  | markUsed (addr : ℕ)
  | getIoPage (addr : ℕ)
  | initAlloc (size : ℕ)
  deriving DecidableEq, Repr

/-- One call; a pointer that is passed points to an entry. -/
def pmmStep (p : Pmm) : PmmAct → Option Pmm
  | .alloc maxAddr => (p.alloc maxAddr).map Prod.snd
  | .freePage r => if (p.page r).isSome then some (p.freePage r) else none
  | .free addr => some (p.free addr)
  | .markUsed addr => some (p.markUsed addr)
  | .getIoPage addr => some (p.getIoPage addr)
  | .initAlloc size => some (p.initAlloc size)

def Pmm.addresses (p : Pmm) : List ℕ := p.pages.map address

theorem modify_addresses (pages : List PhysicalPage) (i : ℕ) (st : PageStatus) :
    (pages.modify i fun pg => { pg with status := st }).map address = pages.map address := by
  refine ext_getElem? fun j => ?_
  rw [getElem?_map, getElem?_map, getElem?_modify]
  cases pages[j]? with
  | none => rfl
  | some pg =>
    show some (address (if i = j then { pg with status := st } else pg)) = some pg.address
    split <;> rfl

@[simp] theorem Pmm.addresses_setStatus (p : Pmm) (r : PageRef) (st : PageStatus) :
    (p.setStatus r st).addresses = p.addresses := by
  cases r with
  | table i => exact modify_addresses p.pages i st
  | io i => rfl

@[simp] theorem Pmm.ioAddresses_setStatus (p : Pmm) (r : PageRef) (st : PageStatus) :
    (p.setStatus r st).ioPages.map address = p.ioPages.map address := by
  cases r with
  | table i => rfl
  | io i => exact modify_addresses p.ioPages i st

@[simp] theorem Pmm.addresses_initAccount (p : Pmm) : p.initAccount.addresses = p.addresses := by
  simp only [Pmm.addresses, Pmm.initAccount, map_map]
  refine map_congr_left ?_
  intro pg _
  simp only [Function.comp_apply]
  split <;> rfl

theorem Pmm.status_setStatus (p : Pmm) (r : PageRef) (st : PageStatus) :
    (p.setStatus r st).status r = (p.status r).map fun _ => st := by
  cases r with
  | table i =>
    simp only [Pmm.status, Pmm.page, Pmm.setStatus, getElem?_modify_eq, Option.map_map]
    cases p.pages[i]? <;> rfl
  | io i =>
    simp only [Pmm.status, Pmm.page, Pmm.setStatus, getElem?_modify_eq, Option.map_map]
    cases p.ioPages[i]? <;> rfl

variable {p : Pmm} {r : PageRef} {i : ℕ} {pg : PhysicalPage}

theorem Pmm.freePage_inUse (h : p.status r = some .inUse) :
    p.freePage r = { p.setStatus r .free with freePages := add32 p.freePages 1 } := by
  have hset : (p.setStatus r .free).status r = some .free := by
    rw [Pmm.status_setStatus, h]
    rfl
  unfold Pmm.freePage
  rw [if_pos h, if_pos (by rw [hset]; decide)]
  cases r <;> rfl

theorem Pmm.freePage_free (h : p.status r = some .free) :
    p.freePage r = { p with freePages := add32 p.freePages 1 } := by
  simp [Pmm.freePage, h]

theorem Pmm.freePage_mmio (h : p.status r = some .mmio) : p.freePage r = p := by
  simp [Pmm.freePage, h]

/-- The entry at `i` may be handed out below `maxAddr`. -/
def Pmm.Suitable (p : Pmm) (maxAddr i : ℕ) : Prop :=
  ∃ pg, p.pages[i]? = some pg ∧ pg.status = .free ∧ pg.address < maxAddr

/-- The manager after the entry at `i` was handed out. -/
def Pmm.taken (p : Pmm) (i : ℕ) : Pmm :=
  { p.setStatus (.table i) .inUse with lastidx := i, freePages := sub32 p.freePages 1 }

/-- What `physical_alloc` returns: the entry was suitable and is marked, and the counter goes down.  It is
the entry at `lastidx` only if that is the last one, to which the clamp leads. -/
theorem Pmm.allocLoop_spec (fuel idx : ℕ) (h : p.allocLoop maxAddr fuel idx = some (i, p')) :
    p.Suitable maxAddr i ∧ p' = p.taken i ∧ (i = p.lastidx → i + 1 = p.pages.length) := by
  induction fuel generalizing idx with
  | zero => cases h
  | succ fuel ih =>
    simp only [Pmm.allocLoop] at h
    obtain ⟨hne, h⟩ := Option.ite_none_left_eq_some.1 h
    split at h
    · cases h
    · rename_i pg hget
      split at h
      · rename_i hfree
        obtain ⟨rfl, rfl⟩ := Prod.mk.inj (Option.some.inj h)
        obtain ⟨hlt, -⟩ := List.getElem?_eq_some_iff.1 hget
        refine ⟨⟨pg, hget, hfree⟩, rfl, fun heq => ?_⟩
        by_cases hgt : idx > p.pages.length
        · rw [if_pos hgt] at hlt ⊢
          omega
        · rw [if_neg hgt] at heq
          exact absurd heq hne
      · exact ih _ h

theorem findPageLoop_sound (fuel : ℕ) :
    ∀ min max guess : ℤ, findPageLoop pages addr fuel min max guess = some i →
      ∃ pg, pages[i]? = some pg ∧ pg.address = addr := by
  induction fuel with
  | zero =>
    nofun
  | succ fuel ih =>
    intro min max guess h
    rw [findPageLoop] at h
    split at h
    · cases h
    · rename_i pg hget
      split at h
      · rename_i heq
        cases h
        exact ⟨pg, hget, heq⟩
      · by_cases hlt : pg.address < addr
        · simp only [if_pos hlt] at h
          split at h
          · cases h
          · exact ih _ _ _ h
        · simp only [if_neg hlt] at h
          split at h
          · cases h
          · exact ih _ _ _ h

theorem Pmm.findPage_sound (h : p.findPage addr = some r) : ∃ pg, p.page r = some pg ∧ pg.address = addr := by
  unfold Pmm.findPage at h
  split at h
  · rename_i i hi
    cases h
    obtain ⟨hlt, heq, -⟩ := findIdx?_eq_some_iff_getElem.1 hi
    exact ⟨_, getElem?_eq_getElem hlt, beq_iff_eq.1 heq⟩
  · obtain ⟨i, hi, rfl⟩ := Option.map_eq_some_iff.1 h
    exact findPageLoop_sound _ _ _ _ hi

theorem Pmm.freePage_addresses (p : Pmm) (r : PageRef) : (p.freePage r).addresses = p.addresses ∧
    (p.freePage r).ioPages.map address = p.ioPages.map address := by
  unfold Pmm.freePage
  dsimp only
  split
  · split <;> exact ⟨p.addresses_setStatus r .free, p.ioAddresses_setStatus r .free⟩
  · split <;> exact ⟨rfl, rfl⟩

/-- No call changes an address in the table; only `physical_get_io_page` adds an entry to `io_pages`,
and only one that is not found. -/
theorem pmmStep_addresses (h : pmmStep p a = some p') : p'.addresses = p.addresses ∧
      (p'.ioPages.map address = p.ioPages.map address ∨
        ∃ addr, p.findPage (addressOf addr) = none ∧ p'.ioPages.map address =
            p.ioPages.map address ++ [addressOf addr]) := by
  cases a with
  | alloc maxAddr =>
    obtain ⟨⟨i, q⟩, halloc, rfl⟩ := Option.map_eq_some_iff.1 h
    obtain ⟨-, rfl, -⟩ := Pmm.allocLoop_spec _ _ halloc
    exact ⟨p.addresses_setStatus _ _, .inl (p.ioAddresses_setStatus _ _)⟩
  | freePage r =>
    simp only [pmmStep] at h
    split at h
    · cases h
      exact (p.freePage_addresses r).imp id .inl
    · cases h
  | free addr =>
    cases h
    unfold Pmm.free
    split
    · exact (p.freePage_addresses _).imp id .inl
    · exact ⟨rfl, .inl rfl⟩
  | markUsed addr =>
    cases h
    unfold Pmm.markUsed
    split
    · exact ⟨p.addresses_setStatus _ _, .inl (p.ioAddresses_setStatus _ _)⟩
    · exact ⟨rfl, .inl rfl⟩
  | getIoPage addr =>
    cases h
    unfold Pmm.getIoPage
    split
    · exact ⟨rfl, .inl rfl⟩
    · rename_i hnone
      exact ⟨rfl, .inr ⟨addr, hnone, by rw [map_append]; rfl⟩⟩
  | initAlloc size =>
    cases h
    exact ⟨Pmm.addresses_initAccount _, .inl rfl⟩

/-! ### The binary search -/

theorem address_lt_of_lt {pages : List PhysicalPage} (hs : (pages.map address).Pairwise (· < ·)) (hij : i < j)
    (ha : pages[i]? = some a) (hb : pages[j]? = some b) : a.address < b.address := by
  obtain ⟨hi, rfl⟩ := List.getElem?_eq_some_iff.1 ha
  obtain ⟨hj, rfl⟩ := List.getElem?_eq_some_iff.1 hb
  have hlt := pairwise_iff_getElem.1 hs i j (by rwa [length_map])
    (by rwa [length_map]) hij
  rwa [getElem_map, getElem_map] at hlt

/-- **The search finds an entry of a sorted table**, as long as its index is between the bounds. -/
theorem findPageLoop_found {pages : List PhysicalPage}
    (hs : (pages.map address).Pairwise (· < ·)) (hget : pages[i]? = some pg) (fuel : ℕ) :
    ∀ min max : ℤ, 0 ≤ min → min ≤ i → i ≤ max → max < pages.length →
      max - min < fuel → findPageLoop pages pg.address fuel min max ((min + max).tdiv 2) = some i := by
  induction fuel with
  | zero =>
    intro min max _ _ _ _ hfuel
    omega
  | succ fuel ih =>
    intro min max hmin hlo hhi hmax hfuel
    obtain ⟨g, hg⟩ : ∃ g : ℕ, (min + max).tdiv 2 = g := by
      refine ⟨((min + max).tdiv 2).toNat, (Int.toNat_of_nonneg ?_).symm⟩
      exact Int.tdiv_nonneg (by omega) (by omega)
    have hhalf : (g : ℤ) = (min + max) / 2 := by
      rw [← hg, Int.tdiv_eq_ediv_of_nonneg (by omega)]
    have hlt : g < pages.length := by omega
    have hat : pages[g]? = some (pages.get ⟨g, hlt⟩) := getElem?_eq_getElem hlt
    rw [findPageLoop, hg, Int.toNat_natCast, hat]
    -- the guess is left of the entry, at it, or right of it
    rcases Nat.lt_trichotomy g i with hgi | hgi | hgi
    · have haddr := address_lt_of_lt hs hgi hat hget
      simp only [if_neg (Nat.ne_of_lt haddr), if_pos haddr]
      rw [if_neg (by omega)]
      exact ih (g + 1) max (by omega) (by omega) hhi hmax (by omega)
    · subst hgi
      rw [hget] at hat
      rw [← Option.some.inj hat]
      simp only [if_true]
    · have haddr := address_lt_of_lt hs hgi hget hat
      simp only [if_neg (Nat.ne_of_gt haddr), if_neg (Nat.lt_asymm haddr)]
      rw [if_neg (by omega)]
      exact ih min (g - 1) hmin hlo (by omega) (by omega) (by omega)

/-- The table is sorted, and no entry of `io_pages` has an address of the table. -/
structure Pmm.Sorted (p : Pmm) : Prop where
  sorted : p.addresses.Pairwise (· < ·)
  apart : ∀ a ∈ p.ioPages.map address, a ∉ p.addresses

theorem Pmm.Sorted.findPage (h : p.Sorted) (hget : p.pages[i]? = some pg) :
    p.findPage pg.address = some (.table i) := by
  have hmem : pg.address ∈ p.addresses := mem_map_of_mem (mem_of_getElem? hget)
  have hio : (p.ioPages.findIdx? fun q => q.address == pg.address) = none := by
    rw [findIdx?_eq_none_iff]
    intro q hq
    rw [beq_eq_false_iff_ne]
    intro heq
    exact h.apart _ (mem_map_of_mem hq) (heq ▸ hmem)
  obtain ⟨hi, -⟩ := List.getElem?_eq_some_iff.1 hget
  have hfind := findPageLoop_found h.sorted hget (p.pages.length + 1) 0 (p.pages.length - 1)
    (Int.le_refl 0) (by omega) (by omega) (by omega) (by omega)
  rw [Int.zero_add] at hfind
  unfold Pmm.findPage
  rw [hio]
  simp only [hfind, Option.map_some]

theorem Pmm.Sorted.step (h : p.Sorted) (hstep : pmmStep p a = some p') : p'.Sorted := by
  obtain ⟨haddr, hio⟩ := pmmStep_addresses hstep
  refine ⟨haddr ▸ h.sorted, ?_⟩
  rw [haddr]
  rcases hio with hio | ⟨addr, hnone, hio⟩
  · rw [hio]
    exact h.apart
  · rw [hio]
    intro b hb
    rcases mem_append.1 hb with hold | hnew
    · exact h.apart b hold
    · rw [mem_singleton.1 hnew]
      intro hmem
      obtain ⟨pg, hpg, heq⟩ := mem_map.1 hmem
      obtain ⟨i, hi⟩ := getElem?_of_mem hpg
      have hfound := h.findPage hi
      rw [heq, hnone] at hfound
      cases hfound

/-- **From a sorted table on**, `find_page` finds every entry, and so `physical_free` and
`physical_mark_used` reach the page they name. -/
theorem Pmm.found_of_sorted (h : p.Sorted) (hreach : Reach pmmStep anyStep p q)
    (hget : q.pages[i]? = some pg) : q.findPage pg.address = some (.table i) ∧
      ∀ addr, addressOf addr = pg.address →
        q.free addr = q.freePage (.table i) ∧ q.markUsed addr = q.setStatus (.table i) .inUse := by
  have hq : q.Sorted := hreach.invariant Pmm.Sorted h fun _ _ _ hs _ hstep => hs.step hstep
  have hfound := hq.findPage hget
  refine ⟨hfound, ?_⟩
  intro addr haddr
  rw [Pmm.free, Pmm.markUsed, haddr, hfound]
  exact ⟨rfl, rfl⟩

/-! ### Pages named by their addresses -/

/-- The manager of `Physical`, with its pages as entries. -/
def Physical.toPmm (ph : Physical) (endOfKernel : ℕ) : Pmm where
  pages := ph.pages
  ioPages := ph.ioPages.map fun a => ⟨a, .mmio⟩
  lastidx := ph.lastidx
  freePages := ph.freePages
  endOfKernel := endOfKernel

section

variable (ph : Physical)
include ph

theorem Physical.index_unique
    (ha : ph.pages[i]? = some a) (hb : ph.pages[j]? = some b) (heq : a.address = b.address) : i = j := by
  obtain ⟨hi, rfl⟩ := List.getElem?_eq_some_iff.1 ha
  obtain ⟨hj, rfl⟩ := List.getElem?_eq_some_iff.1 hb
  have hne := pairwise_iff_getElem.1 ph.ok.nodup
  simp only [length_map, getElem_map] at hne
  rcases Nat.lt_trichotomy i j with hlt | hij | hgt
  · exact absurd heq (hne i j hi hj hlt)
  · exact hij
  · exact absurd heq.symm (hne j i hj hi hgt)

theorem Physical.toPmm_mark (e : ℕ) (hget : ph.pages[i]? = some pg) (st : PageStatus) :
    (ph.mark pg.address st).toPmm e = (ph.toPmm e).setStatus (.table i) st := by
  have hpages : markPages pg.address st ph.pages = ph.pages.modify i fun q => { q with status := st } := by
    refine ext_getElem? fun j => ?_
    rw [markPages, getElem?_map, getElem?_modify]
    cases hj : ph.pages[j]? with
    | none => rfl
    | some q =>
      show some (if q.address = pg.address then { q with status := st } else q) =
        some (if i = j then { q with status := st } else q)
      by_cases hij : i = j
      · subst hij
        rw [hget] at hj
        cases hj
        rw [if_pos rfl, if_pos rfl]
      · rw [if_neg hij, if_neg fun heq => hij (ph.index_unique hget hj heq.symm)]
  show Pmm.mk (markPages pg.address st ph.pages) _ _ _ _ = Pmm.mk (ph.pages.modify i _) _ _ _ _
  rw [hpages]
  rfl

/-- **Allocation** is the same on both levels. -/
theorem physicalAlloc_toPmm (e maxAddr : ℕ) :
    (((ph.toPmm e).alloc maxAddr).map fun r => (ph.pages[r.1]?.map address, r.2)) =
      (physicalAllocBelow ph maxAddr).map fun r => (some r.1, r.2.toPmm e) := by
  have hloop : ∀ fuel idx, (((ph.toPmm e).allocLoop maxAddr fuel idx).map fun r =>
      (ph.pages[r.1]?.map address, r.2)) =
      (physicalAllocLoop ph maxAddr fuel idx).map fun r => (some r.1, r.2.toPmm e) := by
    intro fuel
    induction fuel with
    | zero => exact fun _ => rfl
    | succ fuel ih =>
      intro idx
      rw [Pmm.allocLoop, physicalAllocLoop]
      by_cases hlast : idx = ph.lastidx
      · rw [if_pos hlast, if_pos (show idx = (ph.toPmm e).lastidx from hlast)]
        rfl
      · rw [if_neg hlast, if_neg (show ¬idx = (ph.toPmm e).lastidx from hlast)]
        obtain ⟨j, hj⟩ : ∃ j, j = if idx > ph.pages.length then ph.pages.length - 1 else idx :=
          ⟨_, rfl⟩
        have hj' : (if idx > (ph.toPmm e).pages.length then (ph.toPmm e).pages.length - 1 else idx) =
          j := hj.symm
        simp only [← hj, hj']
        have hpages : (ph.toPmm e).pages[j]? = ph.pages[j]? := rfl
        rw [hpages]
        cases hget : ph.pages[j]? with
        | none => rfl
        | some pg =>
          simp only
          split
          · have hmark := ph.toPmm_mark e hget .inUse
            simp only [Option.map_some, hget, ← hmark]
            rfl
          · exact ih _
  exact hloop _ _

theorem physicalFreePage_toPmm (e : ℕ) (hget : ph.pages[i]? = some pg) :
    (physicalFreePage ph pg.address).toPmm e = (ph.toPmm e).freePage (.table i) := by
  have hsearch : (ph.pages.find? fun q => q.address == pg.address) = some pg := by
    cases hq : ph.pages.find? fun q => q.address == pg.address with
    | none =>
      have hno := find?_eq_none.1 hq pg (mem_of_getElem? hget)
      exact absurd (beq_self_eq_true _) hno
    | some q =>
      obtain ⟨j, hj⟩ := getElem?_of_mem (mem_of_find?_eq_some hq)
      have hqa : q.address = pg.address := by simpa using find?_some hq
      have hij := ph.index_unique hget hj hqa.symm
      rw [← hij, hget] at hj
      rw [Option.some.inj hj]
  have hst : (ph.toPmm e).status (.table i) = some pg.status := by
    show (ph.pages[i]?).map _ = _
    rw [hget]
    rfl
  have hmark := ph.toPmm_mark e hget .free
  simp only [physicalFreePage, hsearch]
  cases hs : pg.status with
  | inUse =>
    rw [Pmm.freePage_inUse (hs ▸ hst), ← hmark]
    simp [Physical.toPmm, Physical.mark]
  | free =>
    rw [Pmm.freePage_free (hs ▸ hst)]
    simp [Physical.toPmm]
  | mmio =>
    rw [Pmm.freePage_mmio (hs ▸ hst)]
    simp

/-- **Release** is the same on both levels. -/
theorem physicalFree_toPmm (e addr : ℕ) :
    (physicalFree ph addr).toPmm e = (ph.toPmm e).free addr := by
  unfold physicalFree Pmm.free
  by_cases hio : addressOf addr ∈ ph.ioPages
  · obtain ⟨i, hi⟩ : ∃ i, ((ph.toPmm e).ioPages.findIdx? fun pg => pg.address == addressOf addr) = some i := by
      rw [← Option.isSome_iff_exists, findIdx?_isSome, any_eq_true]
      exact ⟨⟨_, .mmio⟩, mem_map_of_mem hio, beq_self_eq_true _⟩
    have hfind : (ph.toPmm e).findPage (addressOf addr) = some (.io i) := by
      rw [Pmm.findPage, hi]
    have hst : (ph.toPmm e).status (.io i) = some .mmio := by
      obtain ⟨hlt, -⟩ := findIdx?_eq_some_iff_getElem.1 hi
      have hlt' : i < ph.ioPages.length := by rwa [Physical.toPmm, length_map] at hlt
      show ((ph.ioPages.map fun a => PhysicalPage.mk a .mmio)[i]?).map _ = _
      rw [getElem?_map, getElem?_eq_getElem hlt']
      rfl
    simp only [if_pos hio, hfind, Pmm.freePage_mmio hst]
  · have hnone : ((ph.toPmm e).ioPages.findIdx? fun pg => pg.address == addressOf addr) = none := by
      rw [findIdx?_eq_none_iff]
      intro pg hpg
      obtain ⟨a, ha, rfl⟩ := mem_map.1 hpg
      rw [beq_eq_false_iff_ne]
      exact fun heq => hio (heq ▸ ha)
    have hfind : (ph.toPmm e).findPage (addressOf addr) = (findPage ph (addressOf addr)).map .table := by
      rw [Pmm.findPage, hnone]
      rfl
    simp only [if_neg hio, hfind]
    cases hf : findPage ph (addressOf addr) with
    | none => rfl
    | some i =>
      obtain ⟨pg, hget, heq⟩ := findPageLoop_sound _ _ _ _ hf
      simp only [Option.map_some, ← heq, physicalFreePage_toPmm ph e hget]

end

/-! ### Calls one after the other -/

/-- `physical_alloc`, `physical_free(page)` for the entry at `i`, and `physical_free(addr)`. -/
inductive PhysicalCall where
  | alloc (maxAddr : ℕ)
  | freePage (i : ℕ)
  | free (addr : ℕ)

/-- The address that is returned, if any, and the manager after it; `none` is a panic, or an entry that does not exist. -/
def Physical.call (ph : Physical) : PhysicalCall → Option (Option ℕ × Physical)
  | .alloc maxAddr => (physicalAllocBelow ph maxAddr).map fun r => (some r.1, r.2)
  | .freePage i => ph.pages[i]?.map fun pg => (none, physicalFreePage ph pg.address)
  | .free addr => some (none, physicalFree ph addr)

def Pmm.call (p : Pmm) : PhysicalCall → Option (Option ℕ × Pmm)
  | .alloc maxAddr => (p.alloc maxAddr).map fun r => (p.pages[r.1]?.map address, r.2)
  | .freePage i => p.pages[i]?.map fun _ => (none, p.freePage (.table i))
  | .free addr => some (none, p.free addr)

/-- What the calls return, one after the other. -/
def returned (call : σ → PhysicalCall → Option (Option ℕ × σ)) : σ → List PhysicalCall → Option (List (Option ℕ))
  | _, [] => some []
  | s, c :: cs => (call s c).bind fun r => (returned call r.2 cs).map (r.1 :: ·)

theorem call_toPmm (ph : Physical) (e : ℕ) (c : PhysicalCall) :
    (ph.toPmm e).call c = (ph.call c).map fun r => (r.1, r.2.toPmm e) := by
  cases c with
  | alloc maxAddr =>
    rw [Pmm.call, Physical.call, Option.map_map]
    exact physicalAlloc_toPmm ph e maxAddr
  | freePage i =>
    show ph.pages[i]?.map _ = (ph.pages[i]?.map _).map _
    cases hget : ph.pages[i]? with
    | none => rfl
    | some pg => simp only [Option.map_some, physicalFreePage_toPmm ph e hget]
  | free addr => rw [Pmm.call, ← physicalFree_toPmm, Physical.call, Option.map_some]

/-- **Entries of the table and pages named by their addresses**: every sequence of calls returns the same pages on both
levels, and runs out of memory at the same call. -/
theorem returned_toPmm (ph : Physical) (e : ℕ) (cs : List PhysicalCall) :
    returned Pmm.call (ph.toPmm e) cs = returned Physical.call ph cs := by
  induction cs generalizing ph with
  | nil => rfl
  | cons c cs ih =>
    rw [returned, returned, call_toPmm, Option.bind_map]
    exact Option.bind_congr fun r _ => congrArg (Option.map (r.1 :: ·)) (ih r.2)

end Btos.Kernel.Mm2
