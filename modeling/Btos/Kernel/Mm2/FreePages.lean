import Btos.Kernel.Mm2.PhysicalRight

/-!
# The counter of free pages

`free_pages`, which is reported as `FREEMEM`, and the entries of the table that are `Free`.

* `freePages_right_iff` — **so it is right in every state of a run exactly if** no entry of the table
  lies below the end of the kernel when `mm2_physical_init` accounts for it, and every call meets the
  condition.
-/

namespace Btos.Kernel.Mm2

open Lib.Word Lib.Transition Lib.Lists List Option Pmm PhysicalPage

/-- The entry is `Free`. -/
def PhysicalPage.isFree (pg : PhysicalPage) : Bool := pg.status == .free

/-- The number of `Free` entries. -/
def Pmm.freeCount (p : Pmm) : ℕ := p.pages.countP isFree

def Pmm.Balanced (p : Pmm) : Prop := p.freePages = p.freeCount

instance (p : Pmm) : Decidable p.Balanced := inferInstanceAs (Decidable (_ = _))

/-- `physical_free(page)` keeps the counter right: the page is in use in the table, or not RAM. -/
def Pmm.MayFree (p : Pmm) : PageRef → Prop
  | .table i => p.status (.table i) ≠ some .free
  | .io i => p.status (.io i) = some .mmio

instance (p : Pmm) : ∀ r, Decidable (p.MayFree r)
  | .table i => inferInstanceAs (Decidable (p.status (.table i) ≠ some .free))
  | .io i => inferInstanceAs (Decidable (p.status (.io i) = some .mmio))

/-- `page->status(PageStatus::InUse)` keeps it right: the page is not `Free` in the table. -/
def Pmm.MayMark (p : Pmm) : PageRef → Prop
  | .table i => p.status (.table i) ≠ some .free
  | .io _ => True

instance (p : Pmm) : ∀ r, Decidable (p.MayMark r)
  | .table i => inferInstanceAs (Decidable (p.status (.table i) ≠ some .free))
  | .io _ => .isTrue trivial

/-- No `Free` entry is below `e`. -/
def Pmm.NoneBelow (p : Pmm) (e : ℕ) : Prop := ∀ pg ∈ p.pages, pg.isFree = true → e ≤ pg.address

instance (p : Pmm) (e : ℕ) : Decidable (p.NoneBelow e) :=
  inferInstanceAs (Decidable (∀ pg ∈ p.pages, pg.isFree = true → e ≤ pg.address))

def Pmm.KeepsCount (p : Pmm) : PmmAct → Prop
  | .alloc _ | .getIoPage _ => True
  | .freePage r => p.MayFree r
  | .free addr => ∀ r ∈ p.findPage (addressOf addr), p.MayFree r
  | .markUsed addr => ∀ r ∈ p.findPage (addressOf addr), p.MayMark r
  | .initAlloc size => p.NoneBelow (add32 p.endOfKernel size)

instance (p : Pmm) : ∀ a, Decidable (p.KeepsCount a)
  | .alloc _ | .getIoPage _ => .isTrue trivial
  | .freePage r => inferInstanceAs (Decidable (p.MayFree r))
  | .free addr => inferInstanceAs (Decidable (∀ r ∈ p.findPage (addressOf addr), p.MayFree r))
  | .markUsed addr => inferInstanceAs (Decidable (∀ r ∈ p.findPage (addressOf addr), p.MayMark r))
  | .initAlloc size => inferInstanceAs (Decidable (p.NoneBelow (add32 p.endOfKernel size)))

/-! ### One entry -/

theorem countP_modify_of_free {pages : List PhysicalPage} {pg : PhysicalPage}
    (hget : pages[i]? = some pg) (st : PageStatus) :
    (pages.modify i fun q => { q with status := st }).countP isFree + (if pg.status = .free then 1 else 0) =
      pages.countP isFree + (if st = .free then 1 else 0) := by
  induction pages generalizing i with
  | nil => cases hget
  | cons q pages ih =>
    cases i with
    | zero =>
      cases hget
      rw [modify_zero_cons, countP_cons, countP_cons]
      simp only [isFree, beq_iff_eq]
      omega
    | succ i =>
      have hrest := ih hget
      rw [modify_succ_cons, countP_cons, countP_cons]
      omega

theorem Pmm.freeCount_setStatus {p : Pmm} {i : ℕ} {old : PageStatus}
    (hold : p.status (.table i) = some old) (st : PageStatus) :
    (p.setStatus (.table i) st).freeCount + (if old = .free then 1 else 0) =
      p.freeCount + (if st = .free then 1 else 0) := by
  obtain ⟨pg, hget, rfl⟩ := map_eq_some_iff.1 hold
  exact countP_modify_of_free hget st

theorem Pmm.freeCount_le (p : Pmm) : p.freeCount ≤ p.pages.length := countP_le_length

theorem Pmm.status_of_page {p : Pmm} {r : PageRef} (h : (p.page r).isSome) : ∃ st, p.status r = some st := by
  obtain ⟨pg, hpg⟩ := isSome_iff_exists.1 h
  exact ⟨pg.status, by rw [status, hpg]; rfl⟩

/-! ### One call -/

section

variable {p : Pmm}

theorem Pmm.Balanced.initAccount_iff (h : p.Balanced) :
    (initAccount { p with endOfKernel := e }).Balanced ↔ p.NoneBelow e := by
  have hcount : (initAccount { p with endOfKernel := e }).freeCount =
      p.pages.countP fun pg => pg.isFree && decide (e ≤ pg.address) := by
    show (p.pages.map _).countP _ = _
    rw [countP_map]
    refine countP_congr ?_
    intro pg _
    simp only [Function.comp_apply, isFree]
    by_cases hlt : pg.address < e
    · simp [hlt, Nat.not_le.2 hlt]
    · simp [hlt, Nat.not_lt.1 hlt]
  unfold Pmm.Balanced at h ⊢
  rw [hcount]
  show p.freePages = _ ↔ _
  rw [h, freeCount, countP_and_eq_iff]
  simp only [decide_eq_true_eq]
  rfl

theorem Pmm.Balanced.freePage_iff (h : p.Balanced) (hlen : p.pages.length < 2 ^ 32) {r : PageRef}
    (hr : (p.page r).isSome) : (p.freePage r).Balanced ↔ p.MayFree r := by
  have hle := p.freeCount_le
  have hwrong : ∀ n, n < 2 ^ 32 → add32 n 1 ≠ n := by
    intro n hn
    unfold add32
    omega
  obtain ⟨st, hst⟩ := status_of_page hr
  cases st with
  | free =>
    rw [freePage_free hst]
    refine iff_of_false ?_ ?_
    · show ¬add32 p.freePages 1 = p.freeCount
      rw [h]
      exact hwrong _ (by omega)
    · cases r with
      | table i => exact fun hc => hc hst
      | io i =>
        intro hc
        rw [Pmm.MayFree, hst] at hc
        cases hc
  | mmio =>
    rw [freePage_mmio hst]
    refine iff_of_true h ?_
    cases r with
    | table i =>
      rw [Pmm.MayFree, hst]
      decide
    | io i => exact hst
  | inUse =>
    rw [freePage_inUse hst]
    cases r with
    | table i =>
      have hcount := freeCount_setStatus hst .free
      rw [if_neg (by decide), if_pos rfl, Nat.add_zero] at hcount
      have hle' := (p.setStatus (.table i) .free).freeCount_le
      have hsame : (p.setStatus (.table i) .free).pages.length = p.pages.length :=
        length_modify ..
      refine iff_of_true ?_ ?_
      · show add32 p.freePages 1 = (p.setStatus (.table i) .free).freeCount
        rw [hcount, h, add32_of_lt (by omega)]
      · rw [Pmm.MayFree, hst]
        decide
    | io i =>
      refine iff_of_false ?_ ?_
      · show ¬add32 p.freePages 1 = p.freeCount
        rw [h]
        exact hwrong _ (by omega)
      · intro hc
        rw [Pmm.MayFree, hst] at hc
        cases hc

/-- **One call** keeps the counter right exactly if it meets the condition. -/
theorem Pmm.Balanced.step_iff (h : p.Balanced) (hlen : p.pages.length < 2 ^ 32) {a : PmmAct} {p' : Pmm}
    (hstep : pmmStep p a = some p') : p'.Balanced ↔ p.KeepsCount a := by
  have hle := p.freeCount_le
  cases a with
  | alloc maxAddr =>
    obtain ⟨⟨i, q⟩, halloc, rfl⟩ := map_eq_some_iff.1 hstep
    obtain ⟨⟨pg, hget, hfree, -⟩, rfl, -⟩ := allocLoop_spec _ _ halloc
    have hst : p.status (.table i) = some .free := by
      show (p.pages[i]?).map _ = _
      rw [hget, map_some, hfree]
    have hcount := freeCount_setStatus hst .inUse
    rw [if_pos rfl, if_neg (by decide)] at hcount
    refine iff_of_true ?_ trivial
    show sub32 p.freePages 1 = (p.setStatus (.table i) .inUse).freeCount
    rw [h, sub32_of_le (by omega) (by omega)]
    omega
  | freePage r =>
    simp only [pmmStep] at hstep
    split at hstep
    · rename_i hr
      cases hstep
      exact h.freePage_iff hlen hr
    · cases hstep
  | free addr =>
    cases hstep
    rw [free, Pmm.KeepsCount]
    cases hf : p.findPage (addressOf addr) with
    | none =>
      refine iff_of_true h ?_
      simp
    | some r =>
      obtain ⟨pg, hpg, -⟩ := findPage_sound hf
      refine (h.freePage_iff hlen (isSome_iff_exists.2 ⟨pg, hpg⟩)).trans ?_
      exact ⟨by rintro hmay r' ⟨⟩; exact hmay, fun hall => hall r rfl⟩
  | markUsed addr =>
    cases hstep
    rw [markUsed, Pmm.KeepsCount]
    cases hf : p.findPage (addressOf addr) with
    | none =>
      refine iff_of_true h ?_
      simp
    | some r =>
      have hall : (∀ r' ∈ some r, p.MayMark r') ↔ p.MayMark r :=
        ⟨fun hall => hall r rfl, by rintro hmay r' ⟨⟩; exact hmay⟩
      rw [hall]
      cases r with
      | io i => exact iff_of_true h trivial
      | table i =>
        obtain ⟨pg, hpg, -⟩ := findPage_sound hf
        obtain ⟨st, hst⟩ := status_of_page (isSome_iff_exists.2 ⟨pg, hpg⟩)
        have hcount := freeCount_setStatus hst .inUse
        rw [if_neg (show ¬PageStatus.inUse = .free by decide)] at hcount
        show p.freePages = (p.setStatus (.table i) .inUse).freeCount ↔ p.status _ ≠ _
        rw [h, hst, Ne, Option.some.injEq]
        by_cases hfree : st = .free
        · rw [if_pos hfree] at hcount
          exact iff_of_false (by omega) fun hc => hc hfree
        · rw [if_neg hfree] at hcount
          exact iff_of_true (by omega) hfree
  | getIoPage addr =>
    cases hstep
    refine iff_of_true ?_ trivial
    unfold getIoPage
    split
    · exact h
    · exact h
  | initAlloc size =>
    cases hstep
    exact h.initAccount_iff

end

/-! ### Every run -/

theorem pmmStep_length (h : pmmStep p a = some p') : p'.pages.length = p.pages.length := by
  have haddr := congrArg length (pmmStep_addresses h).1
  rwa [addresses, addresses, length_map, length_map] at haddr

theorem fillTable_balanced (h : fillTable m kernelEnd mbt = some t) :
    t.Balanced ∧ t.pages.length < 2 ^ 32 ∧ ∀ pg ∈ t.pages, pg.isFree = true := by
  obtain ⟨es, F, -, -, hsize, hle, rfl⟩ := fillTable_eq_some_iff.1 h
  have hall : ∀ pg ∈ F.map (fun a => (⟨addressOf a, .free⟩ : PhysicalPage)) ++
      replicate (countPages es - F.length) zeroPage, pg.isFree = true := by
    intro pg hpg
    rcases mem_append.1 hpg with hin | hin
    · obtain ⟨a, -, rfl⟩ := mem_map.1 hin
      rfl
    · rw [(mem_replicate.1 hin).2]
      rfl
  have hlen : (F.map (fun a => (⟨addressOf a, .free⟩ : PhysicalPage)) ++
      replicate (countPages es - F.length) zeroPage).length = countPages es := by
    rw [length_append, length_map, length_replicate]
    omega
  refine ⟨?_, ?_, hall⟩
  · show countPages es = countP _ _
    rw [countP_eq_length.2 hall, hlen]
  · show length _ < _
    rw [hlen]
    omega

/-- **When the counter is right.**  In a run from `mm2_physical_init` on, the counter is the number of
`Free` entries in every state exactly if no entry of the table was below the end of the kernel when
`init_account` looked at it, and every call met its condition. -/
theorem freePages_right_iff {m : Memory} {kernelEnd : ℕ} {mbt : MultibootInfo} {t q : Pmm}
    {as : List PmmAct} (hfill : fillTable m kernelEnd mbt = some t)
    (hrun : exec pmmStep t.initAccount as = some q) :
    (∀ k s, exec pmmStep t.initAccount (as.take k) = some s → s.Balanced) ↔
      (∀ pg ∈ t.pages, t.endOfKernel ≤ pg.address) ∧ Guarded pmmStep Pmm.KeepsCount t.initAccount as := by
  obtain ⟨hbalanced, hlen, hall⟩ := fillTable_balanced hfill
  have hinit : t.initAccount.Balanced ↔ ∀ pg ∈ t.pages, t.endOfKernel ≤ pg.address := by
    refine hbalanced.initAccount_iff.trans ?_
    exact forall₂_congr fun pg hpg => ⟨fun h => h (hall pg hpg), fun h _ => h⟩
  have hlen' : t.initAccount.pages.length < 2 ^ 32 := by
    show (t.pages.map _).length < _
    rwa [length_map]
  rw [forall_take_iff Pmm.Balanced as hrun, ← hinit]
  refine and_congr_right fun hstart => ?_
  -- the length of the table and the balance carry the induction
  refine guarded_iff (fun s => s.Balanced ∧ s.pages.length < 2 ^ 32) (fun _ => True)
    (fun _ _ _ _ _ => trivial) ?_ ?_ as _ ⟨hstart, hlen'⟩ hrun trivial
  · intro s a u hs _ hu
    constructor
    · intro h
      exact (hs.1.step_iff hs.2 hu).1 (h u hu)
    · intro h v hv
      exact (hs.1.step_iff hs.2 hv).2 h
  · intro s a u hs hok hu _
    exact ⟨(hs.1.step_iff hs.2 hu).2 hok, by rw [pmmStep_length hu]; exact hs.2⟩

/-- The last page below 4 GiB is all there is. -/
def lastPageMachine : List MemoryMap := [usableRegion 0xFFFFF000 0x1000]

theorem lastPageMachine_table : fillTable (loadedMap lastPageMachine) 0x80000
    (loadedInfo lastPageMachine) = some ⟨[⟨0xFFFFF000, .free⟩], [], 0, 1, 0x80004⟩ := by
  have hentries : mapEntries (loadedMap lastPageMachine) (loadedInfo lastPageMachine) =
      some (lastPageMachine ++ replicate 138 ⟨0, 0, 0, 0, 0, 0⟩) :=
    mapEntries_of_mapLoop (by decide) (by decide +kernel)
  have hcount : countPages (lastPageMachine ++ replicate 138 ⟨0, 0, 0, 0, 0, 0⟩) = 1 := by
    decide +kernel
  refine fillTable_eq_some_iff.2 ⟨_, [0xFFFFF000], hentries, by decide +kernel, ?_, ?_, ?_⟩ <;>
    rw [hcount] <;> decide

/-- Its page is allocated, freed and allocated again. -/
def lastPageRun : List PmmAct := [.alloc 0xFFFFFFFF, .free 0xFFFFF123, .alloc 0xFFFFFFFF]

theorem freePages_right_lastPage :
    exec pmmStep (initAccount ⟨[⟨0xFFFFF000, .free⟩], [], 0, 1, 0x80004⟩) lastPageRun =
        some ⟨[⟨0xFFFFF000, .inUse⟩], [], 0, 0, 0x80004⟩ ∧
      ∀ k s, exec pmmStep (initAccount ⟨[⟨0xFFFFF000, .free⟩], [], 0, 1, 0x80004⟩)
        (lastPageRun.take k) = some s → s.Balanced := by
  have hrun : exec pmmStep (initAccount ⟨[⟨0xFFFFF000, .free⟩], [], 0, 1, 0x80004⟩) lastPageRun =
      some ⟨[⟨0xFFFFF000, .inUse⟩], [], 0, 0, 0x80004⟩ := by decide
  exact ⟨hrun, (freePages_right_iff lastPageMachine_table hrun).2 ⟨by decide, by decide +kernel⟩⟩

/-- **The counter of the usual machine is wrong** from the start: two pages are reported, and no entry is
`Free`. -/
theorem freePages_wrong :
    ∃ p, physicalInit (loadedMap usualMachine) 0x80000 (loadedInfo usualMachine) = some p ∧
      p.freePages = 2 ∧ p.freeCount = 0 := by
  have hinit := congrArg (Option.map initAccount) usualMachine_table
  exact ⟨_, hinit, by decide⟩

end Btos.Kernel.Mm2
