import Mathlib.Data.List.Perm.Basic
import Btos.Lib.Transition

/-!
# The heap of the loader

`user/system/eloader/el_malloc.cpp`: a bitmap of the pages of a heap of 16 MiB, in which `liballoc_alloc` takes the
first run of clear bits that is long enough.

* `scanLoop_spec` — **the scan** finds such a run, if there is one;
* `liballoc_spec` — **the live ranges** over all runs: they are apart, inside the heap, and what the bitmap shows.
-/

namespace Btos.User.Eloader.Malloc

open Lib.Transition List

def heapBase : ℕ := 0xE0000000

def pageSize : ℕ := 4096

def heapSize : ℕ := 16 * 1024 * 1024

def heapPages : ℕ := heapSize / pageSize

/-! ### The bitmap -/

abbrev Bitmap := ℕ → BitVec 32

def getbit (bitmap : Bitmap) (index : ℕ) : Bool := bitmap (index / 32) &&& (1#32 <<< (index % 32)) ≠ 0

def setbit (bitmap : Bitmap) (index : ℕ) (value : Bool) : Bitmap := fun idx =>
  if idx = index / 32 then
    if value then bitmap idx ||| (1#32 <<< (index % 32)) else bitmap idx &&& ~~~(1#32 <<< (index % 32))
  else bitmap idx

theorem getbit_eq (bitmap : Bitmap) (index : ℕ) : getbit bitmap index = (bitmap (index / 32)).getLsbD (index % 32) := by
  have hlt : index % 32 < 32 := Nat.mod_lt _ (by decide)
  have hne : BitVec.twoPow 32 (index % 32) ≠ 0 := by
    intro h
    simpa [hlt] using congrArg (·.getLsbD (index % 32)) h
  rw [getbit, ← BitVec.twoPow_eq, BitVec.and_twoPow]
  split <;> simp_all

theorem getbit_setbit (bitmap : Bitmap) (i j : ℕ) (value : Bool) :
    getbit (setbit bitmap i value) j = if j = i then value else getbit bitmap j := by
  have hlt : j % 32 < 32 := Nat.mod_lt _ (by decide)
  rw [getbit_eq, getbit_eq, setbit, ← BitVec.twoPow_eq]
  by_cases hword : j / 32 = i / 32
  · have hbit : j = i ↔ j % 32 = i % 32 := by omega
    cases value <;> by_cases hij : j % 32 = i % 32 <;> simp_all
  · have hne : j ≠ i := fun h => hword (h ▸ rfl)
    rw [if_neg hword, if_neg hne]

/-! ### Allocating and freeing -/

inductive Syscall where
  | btAllocAt (pages addr : ℕ)
  | btFreePages (addr pages : ℕ)
  deriving DecidableEq, Repr

/-- The bitmap, and the calls of the kernel so far. -/
structure Heap where
  bitmap : Bitmap
  calls : List Syscall

def pageAddr (index : ℕ) : ℕ := heapBase + index * pageSize

/-- Both inner loops: from `index` on, `pages` times a call of the kernel, and the bit is set to `value`. -/
def eachPage (call : ℕ → Syscall) (value : Bool) (index pages : ℕ) (heap : Heap) : Heap :=
  (range' index pages).foldl (fun heap i => ⟨setbit heap.bitmap i value, heap.calls ++ [call (pageAddr i)]⟩) heap

/-- The outer loop, `left` turns from the end: the first page of a run of `pages` clear bits. -/
def scanLoop (bitmap : Bitmap) (pages : ℕ) : (left i base found : ℕ) → Option ℕ
  | 0, _, _, _ => none
  | left + 1, i, base, found =>
      let base := if !getbit bitmap i ∧ found = 0 then i else base
      let found := if !getbit bitmap i then found + 1 else 0
      if found = pages then some base else scanLoop bitmap pages left (i + 1) base found

def liballocAlloc (heap : Heap) (pages : ℕ) : Option ℕ × Heap :=
  match scanLoop heap.bitmap pages heapPages 0 0 0 with
  | some base => (some (pageAddr base), eachPage (.btAllocAt 1) true base pages heap)
  | none => (none, heap)

def liballocFree (heap : Heap) (addr pages : ℕ) : Heap :=
  eachPage (.btFreePages · 1) false ((addr - heapBase) / pageSize) pages heap

theorem eachPage_spec (call : ℕ → Syscall) (value : Bool) (index pages : ℕ) (heap : Heap) :
    (∀ j, getbit (eachPage call value index pages heap).bitmap j =
      if index ≤ j ∧ j < index + pages then value else getbit heap.bitmap j) ∧
    (eachPage call value index pages heap).calls =
      heap.calls ++ (range' index pages).map fun i => call (pageAddr i) := by
  induction pages generalizing index heap with
  | zero => exact ⟨fun j => (if_neg (by omega)).symm, (append_nil _).symm⟩
  | succ n ih =>
    obtain ⟨hbit, hcalls⟩ := ih (index + 1) ⟨setbit heap.bitmap index value, heap.calls ++ [call (pageAddr index)]⟩
    rw [range'_succ]
    refine ⟨fun j => (hbit j).trans ?_, hcalls.trans (by simp)⟩
    rw [getbit_setbit]
    grind

/-! ### The scan -/

/-- The pages from `b` to `e` are free. -/
def Clear (bitmap : Bitmap) (b e : ℕ) : Prop := ∀ j, b ≤ j → j < e → getbit bitmap j = false

theorem clear_succ (h : b ≤ i) : Clear bitmap b (i + 1) ↔ Clear bitmap b i ∧ getbit bitmap i = false := by
  constructor
  · exact fun hc => ⟨fun j hb hi => hc j hb (Nat.lt_succ_of_lt hi), hc i h (Nat.lt_succ_self i)⟩
  · rintro ⟨hc, hi⟩ j hb hj
    rcases Nat.lt_succ_iff_lt_or_eq.mp hj with hj | rfl
    · exact hc j hb hj
    · exact hi

/-- **The scan**, with a run of `found` clear bits before `i`, that begins at `base`. -/
theorem scanLoop_spec (left : ℕ) : ∀ {i base found r}, found < pages → (found ≠ 0 → base + found = i) →
    (∀ b ≤ i, Clear bitmap b i ↔ i ≤ b + found) → scanLoop bitmap pages left i base found = r →
    (∀ b, r = some b → b + pages ≤ i + left ∧ Clear bitmap b (b + pages)) ∧
      (r = none → ∀ b, i < b + pages → b + pages ≤ i + left → ¬ Clear bitmap b (b + pages)) := by
  induction left with
  | zero =>
    rintro i base found r - - - rfl
    exact ⟨by simp [scanLoop], fun _ b hlt hle => absurd hle (Nat.not_le_of_lt hlt)⟩
  | succ left ih =>
    intro i base found r hfound hbase hrun h
    rw [scanLoop] at h
    generalize hf : (if !getbit bitmap i then found + 1 else 0) = found' at h
    generalize hb : (if !getbit bitmap i ∧ found = 0 then i else base) = base' at h
    have hle : found' ≤ pages := by grind
    have hbase' : found' ≠ 0 → base' + found' = i + 1 := by grind
    have hrun' : ∀ b ≤ i + 1, Clear bitmap b (i + 1) ↔ i + 1 ≤ b + found' := by
      intro b hb
      rcases Nat.le_succ_iff.mp hb with hb | rfl
      · rw [clear_succ hb]
        grind
      · exact iff_of_true (fun j h1 h2 => absurd h2 (Nat.not_lt_of_le h1)) (Nat.le_add_right _ _)
    split at h
    · rename_i heq
      subst heq h
      have hend := hbase' (Nat.ne_of_gt (Nat.zero_lt_of_lt hfound))
      refine ⟨fun b hb => ?_, by simp⟩
      obtain rfl := Option.some.inj hb
      exact ⟨by omega, hend ▸ (hrun' _ (by omega)).mpr (by omega)⟩
    · obtain ⟨hsome, hnone⟩ := ih (by omega) hbase' hrun' h
      refine ⟨fun b hb => ⟨by have := (hsome b hb).1; omega, (hsome b hb).2⟩, fun hr b hlt hle hc => ?_⟩
      rcases Nat.eq_or_lt_of_le hlt with heq | hlt
      · have := (hrun' b (by omega)).mp (by rwa [← heq] at hc)
        omega
      · exact hnone hr b hlt (by omega) hc

/-- **`liballoc_alloc`** finds no run exactly if there is none. -/
theorem liballocAlloc_cases (heap : Heap) (hpages : 0 < pages) :
    (liballocAlloc heap pages = (none, heap) ∧ ∀ b, b + pages ≤ heapPages → ¬ Clear heap.bitmap b (b + pages)) ∨
      ∃ b, b + pages ≤ heapPages ∧ Clear heap.bitmap b (b + pages) ∧
        liballocAlloc heap pages = (some (pageAddr b), eachPage (.btAllocAt 1) true b pages heap) := by
  have hstart : ∀ b ≤ 0, Clear heap.bitmap b 0 ↔ 0 ≤ b + 0 :=
    fun b _ => iff_of_true (fun j _ hj => absurd hj (Nat.not_lt_zero j)) (Nat.zero_le _)
  obtain ⟨hsome, hnone⟩ := scanLoop_spec heapPages hpages (absurd rfl) hstart rfl
  rw [liballocAlloc]
  cases hr : scanLoop heap.bitmap pages heapPages 0 0 0 with
  | none => exact .inl ⟨rfl, fun b => hnone hr b (by omega)⟩
  | some b => exact .inr ⟨b, (hsome b hr).1, (hsome b hr).2, rfl⟩

/-! ### The live ranges -/

/-- The heap and the ranges that were returned and not freed, as addresses with their pages. -/
structure State where
  heap : Heap
  live : List (ℕ × ℕ)

inductive Op where
  | alloc (pages : ℕ)
  | free (addr pages : ℕ)

def start : State := ⟨⟨fun _ => 0, []⟩, []⟩

def step (s : State) : Op → Option State
  | .alloc pages =>
      match liballocAlloc s.heap pages with
      | (some addr, heap) => some ⟨heap, (addr, pages) :: s.live⟩
      | (none, heap) => some ⟨heap, s.live⟩
  | .free addr pages => some ⟨liballocFree s.heap addr pages, s.live.erase (addr, pages)⟩

/-- What the client keeps to: a page at least, and only what is live is freed. -/
def Ok (s : State) : Op → Prop
  | .alloc pages => 1 ≤ pages
  | .free addr pages => (addr, pages) ∈ s.live

/-- Page `j` is in the range. -/
def Holds (r : ℕ × ℕ) (j : ℕ) : Prop := r.1 ≤ pageAddr j ∧ pageAddr j < r.1 + r.2 * pageSize

/-- The range is made of whole pages of the heap. -/
def Inside (r : ℕ × ℕ) : Prop := ∃ b, r.1 = pageAddr b ∧ b + r.2 ≤ heapPages

/-- No page is in both ranges. -/
def Apart (r r' : ℕ × ℕ) : Prop := ∀ j, Holds r j → ¬ Holds r' j

structure Inv (s : State) : Prop where
  apart : s.live.Pairwise Apart
  inside : ∀ r ∈ s.live, Inside r
  bits : ∀ j, getbit s.heap.bitmap j = true ↔ ∃ r ∈ s.live, Holds r j

theorem holds_iff (b pages j : ℕ) : Holds (pageAddr b, pages) j ↔ b ≤ j ∧ j < b + pages := by
  simp only [Holds, pageAddr, heapBase, pageSize]
  omega

theorem Inv.free (h : Inv s) (hr : (addr, pages) ∈ s.live) :
    Inv ⟨liballocFree s.heap addr pages, s.live.erase (addr, pages)⟩ := by
  have hperm := perm_cons_erase hr
  obtain ⟨hother, hrest⟩ := pairwise_cons.mp ((hperm.pairwise_iff fun hrr j h1 h2 => hrr j h2 h1).mp h.apart)
  refine ⟨hrest, fun r hr => h.inside r (mem_of_mem_erase hr), fun j => ?_⟩
  obtain ⟨b, rfl, -⟩ := h.inside _ hr
  have hindex : (pageAddr b - heapBase) / pageSize = b := by
    simp only [pageAddr, heapBase, pageSize]
    omega
  have hbits := h.bits j
  simp only [hperm.mem_iff, exists_mem_cons_iff] at hbits
  rw [liballocFree, (eachPage_spec ..).1, hindex]
  split
  · rename_i hj
    simpa using fun addr pages hr => hother _ hr j ((holds_iff ..).mpr hj)
  · rename_i hj
    rw [hbits, or_iff_right (mt (holds_iff ..).mp hj)]

/-- **The step lemma.** -/
theorem Inv.step (h : Inv s) (hok : Ok s op) (hstep : step s op = some t) : Inv t := by
  cases op with
  | alloc pages =>
    rcases liballocAlloc_cases s.heap hok with ⟨heq, -⟩ | ⟨b, hb, hclear, heq⟩ <;>
      rw [Malloc.step, heq] at hstep <;> obtain rfl := Option.some.inj hstep
    · exact h
    · refine ⟨h.apart.cons fun r hr j hj hrj => ?_, forall_mem_cons.mpr ⟨⟨b, rfl, hb⟩, h.inside⟩, fun j => ?_⟩
      · rw [holds_iff] at hj
        simpa [hclear j hj.1 hj.2] using (h.bits j).mpr ⟨r, hr, hrj⟩
      · rw [(eachPage_spec ..).1, exists_mem_cons_iff, holds_iff, ← h.bits]
        split
        · rename_i hj
          exact iff_of_true rfl (.inl hj)
        · rename_i hj
          rw [or_iff_right hj]
  | free addr pages =>
    obtain rfl := Option.some.inj hstep
    exact h.free hok

/-- **The live ranges**: no two share a page, they are inside the heap, and the bitmap shows them; the kernel is asked
for each page once, and only for pages that are free; and there is no result exactly if no `n` pages in a row are. -/
theorem liballoc_spec (h : Reach step Ok start s) :
    s.live.Pairwise Apart ∧ (∀ r ∈ s.live, Inside r) ∧
    (∀ j < heapPages, getbit s.heap.bitmap j = true ↔ ∃ r ∈ s.live, Holds r j) ∧
    (∀ addr n, ∃ l : List ℕ, (liballocFree s.heap addr n).calls = s.heap.calls ++ l.map (.btFreePages · 1)) ∧
    ∀ n, 1 ≤ n →
      (∃ b k, b + k ≤ heapPages ∧ Clear s.heap.bitmap b (b + k) ∧
        (liballocAlloc s.heap n).2.calls = s.heap.calls ++ (range' b k).map fun j => .btAllocAt 1 (pageAddr j)) ∧
      ((liballocAlloc s.heap n).1 = none ↔ ¬ ∃ b, b + n ≤ heapPages ∧ Clear s.heap.bitmap b (b + n)) := by
  have hinv : Inv s := h.invariant Inv ⟨.nil, by simp [start], by simp [start, getbit]⟩ fun s op t => Inv.step
  refine ⟨hinv.apart, hinv.inside, fun j _ => hinv.bits j, fun addr n => ?_, fun n hn => ?_⟩
  · exact ⟨(range' _ n).map pageAddr, by rw [map_map]; exact (eachPage_spec ..).2⟩
  · rcases liballocAlloc_cases s.heap hn with ⟨heq, hnone⟩ | ⟨b, hb, hclear, heq⟩ <;> rw [heq]
    · exact ⟨⟨0, 0, Nat.zero_le _, by simp [Clear], by simp⟩, by simpa using hnone⟩
    · exact ⟨⟨b, n, hb, hclear, (eachPage_spec ..).2⟩, by simpa using ⟨b, hb, hclear⟩⟩

theorem liballoc_spec_two : ∃ s, Reach step Ok start s ∧ s.live = [(pageAddr 1, 2), (pageAddr 0, 1)] ∧
    s.live.Pairwise Apart := by
  have h : Reach step Ok start _ :=
    .next (.alloc 2) (.next (.alloc 1) .start (Nat.le_refl 1) rfl) (Nat.le_succ 1) rfl
  exact ⟨_, h, rfl, (liballoc_spec h).1⟩

end Btos.User.Eloader.Malloc
