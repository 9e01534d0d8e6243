import Btos.Kernel.Mm2.MmapView

/-!
# A file is mapped

`mm2_mmap` from the call to the first state in which the mapping is there.  Its range has whole pages, and a
part before and a part behind them; it may also lie within one page.

* `doMapping_spec` — **`do_mapping`** reads what is not in whole pages, and gives the whole pages up.
* `MmapOk`, `Fresh` — **the condition on the range**, and that nothing else is mapped where its pages are.

A file that is shorter than the range is left out: the whole range is in the file.
-/

namespace Btos.Kernel.Mm2.Mmap

open Lib.Word Lib.Loop Lib.Lists Function Option FileHandle

section Mapping

variable {w w' : World} {m : Mmapping}

/-! ### `do_mapping` -/

/-- What `Read` on a handle leaves as it is. -/
structure Steady (w w' : World) (h : ℕ) : Prop extends Settled w w' where
  bytes : (w'.files h).byteAt = (w.files h).byteAt
  size : (w'.files h).size = (w.files h).size

theorem Steady.refl (w : World) (h : ℕ) : Steady w w h := ⟨.refl w, rfl, rfl⟩

theorem Steady.trans (h₁ : Steady w w' h) (h₂ : Steady w' w'' h) : Steady w w'' h :=
  ⟨h₁.toSettled.trans h₂.toSettled, h₂.bytes.trans h₁.bytes, h₂.size.trans h₁.size⟩

theorem Rest.steady (h : Rest w w') (f : ℕ) : Steady w w' f :=
  ⟨h.toSettled, by rw [h.files], by rw [h.files]⟩

theorem seek_steady (w : World) (h p : ℕ) : Steady w (w.seek h p) h := by
  have hfile : (w.seek h p).files h = (w.files h).seek p := update_self ..
  exact ⟨⟨rfl, rfl, rfl, rfl⟩, by rw [hfile]; rfl, by rw [hfile]; rfl⟩

/-- **`Read` at an offset** to a range of memory. -/
theorem fileRead_spec (hrange : addr + n ≤ 2 ^ 32) (hfile : o + n ≤ (w.files h).size)
    (hr : fileRead (w.seek h o) h n addr = some w') : Steady w w' h ∧
      (∀ i < n, w'.byteAt w.current (addr + i) = some ((w.files h).byteAt (o + i))) ∧
      ∀ a c, (a < addr ∨ addr + n ≤ a) → w.byteAt w.current a = some c → w'.byteAt w.current a = some c := by
  have hseek : (w.seek h o).files h = (w.files h).seek o := update_self ..
  have hcount : ((w.files h).seek o).readCount n = n := seek_readCount hfile
  have hpos : ((w.files h).seek o).pos = o := seek_pos (by omega)
  have hlen : (((w.files h).seek o).read n).length = n := (read_length _ n).trans hcount
  rw [fileRead, hseek] at hr
  obtain ⟨hrest, hin, hout⟩ := writeBytes_spec (by rw [hlen]; exact hrange) hr
  rw [hlen] at hin hout
  refine ⟨?_, ?_, hout⟩
  · have hset : ((w.seek h o).setFile h (((w.files h).seek o).afterRead n)).files h =
      ((w.files h).seek o).afterRead n := update_self ..
    refine ⟨⟨hrest.regions, hrest.live, hrest.current, hrest.mmappings⟩, ?_, ?_⟩
    · rw [hrest.files, hset]
      rfl
    · rw [hrest.files, hset]
      rfl
  · intro i hi
    rw [show w.current = ((w.seek h o).setFile h _).current from rfl, hin i hi,
      read_getD (by rw [hcount]; exact hi), hpos]
    rfl

theorem readPart_spec (hrange : addr + n ≤ 2 ^ 32) (hfile : o + n ≤ (w.files h).size)
    (hr : (if n ≠ 0 then fileRead (w.seek h o) h n addr else some w) = some w') : Steady w w' h ∧
      (∀ i < n, w'.byteAt w.current (addr + i) = some ((w.files h).byteAt (o + i))) ∧
      ∀ a c, (a < addr ∨ addr + n ≤ a) → w.byteAt w.current a = some c → w'.byteAt w.current a = some c := by
  by_cases h0 : n = 0
  · rw [if_neg (not_not.2 h0)] at hr
    cases hr
    exact ⟨.refl w h, fun i hi => by omega, fun _ _ _ hc => hc⟩
  · rw [if_pos h0] at hr
    exact fileRead_spec hrange hfile hr

/-- **`do_mapping`**: outside of the whole pages memory has the bytes of the file, and the whole pages are
not mapped. -/
theorem doMapping_spec (hs : Sound m) (hcur : w.current = m.pid)
    (hin : m.offset + m.size ≤ (w.files m.file).size) (h : doMapping w m = some w') : Steady w w' m.file ∧
      (∀ a, m.addr ≤ a → a < m.addr + m.size → ¬m.InPages a →
        w'.byteAt m.pid a = some ((w.files m.file).byteAt (m.offset + (a - m.addr)))) ∧
      ∀ a, m.InPages a → w'.byteAt m.pid a = none := by
  obtain ⟨hcont, hcover, hwhole, hpre, hpost, hfits⟩ := hs.split
  unfold doMapping at h
  split at h
  · rename_i hsmall
    obtain ⟨x, hx, rfl⟩ := map_eq_some_iff.1 h
    obtain ⟨hsteady, hbytes, -⟩ := fileRead_spec hfits hin hx
    rw [hcur] at hbytes
    refine ⟨hsteady.trans (seek_steady x _ _), ?_, ?_⟩
    · intro a hle hlt _
      have hb := hbytes (a - m.addr) (by omega)
      rw [Nat.add_sub_cancel' hle] at hb
      exact hb
    · intro a ha
      exact absurd ha.1 (Nat.not_lt.2 hsmall)
  · rename_i hsmall
    have hbig : 4096 < m.size := Nat.not_le.1 hsmall
    have hend := hs.pageEnd hbig
    have hpostAddr := hs.postAddr hbig
    have hpostOffset := hs.postOffset
    obtain ⟨x, hx, h⟩ := bind_eq_some_iff.1 h
    obtain ⟨y, hy, h⟩ := bind_eq_some_iff.1 h
    obtain ⟨z, hz, rfl⟩ := map_eq_some_iff.1 h
    obtain ⟨hsx, hbx, -⟩ := readPart_spec (by omega) (by omega) hx
    obtain ⟨hsy, hby, hkept⟩ := readPart_spec (by omega)
      (by rw [hsx.size]; omega) hy
    rw [hsx.current, hcur] at hby hkept
    rw [hcur] at hbx
    have hyc : y.current = m.pid := (hsy.current.trans hsx.current).trans hcur
    obtain ⟨v, hv, hrest, -, hinside, houtside⟩ := guardPages_freed y hwhole (Nat.le_of_lt hend)
    cases hv.symm.trans hz
    rw [hyc] at hinside houtside
    refine ⟨((hsx.trans hsy).trans (hrest.steady _)).trans (seek_steady _ _ _), ?_, ?_⟩
    · intro a hle hlt hout
      have hside : a < m.pageAddr ∨ m.pageAddr + m.pages * 4096 ≤ a := by
        by_contra hmid
        exact hout ⟨hbig, by omega, by omega⟩
      show z.byteAt m.pid a = _
      rw [houtside a hside]
      rcases hside with hlo | hhi
      · have hb := hbx (a - m.addr) (by omega)
        rw [Nat.add_sub_cancel' hle] at hb
        exact hkept a _ (.inl (by omega)) hb
      · have hb := hby (a - m.postAddr) (by omega)
        rw [Nat.add_sub_cancel' (by omega), hsx.bytes] at hb
        rw [hb]
        congr 2
        omega
    · intro a ha
      exact hinside a ha.2.1 ha.2.2

/-! ### `mm2_mmap` -/

/-- **The condition on the range**: it is no shorter than the part before its first whole page, and it ends
before the end of memory, or is the last page. -/
def MmapOk (ptr size : ℕ) : Prop :=
  toPage ptr ≤ size ∧ (ptr + size < 2 ^ 32 ∨ (ptr + size = 2 ^ 32 ∧ size = 4096))

instance (ptr size : ℕ) : Decidable (MmapOk ptr size) := inferInstanceAs (Decidable (_ ∧ _))

/-- No other region has an address of the whole pages, and these are all in the half of memory that the
mapping starts in. -/
def Fresh (w : World) (m : Mmapping) : Prop :=
  ∀ a, m.InPages a → (w.regions w.current).find? (·.covers a) = none ∧
    (w.regions kernelPid).find? (·.covers a) = none ∧ (m.addr < kernelBoundary → a < kernelBoundary)

variable {ptr file offset size : ℕ}

theorem MmapOk.sound (hptr : ptr < 2 ^ 32) (hsize : size < 2 ^ 32) (h : MmapOk ptr size)
    (file offset : ℕ) (pid : Pid) : Sound (mmapping ptr file offset size pid) := by
  obtain ⟨hle, hend⟩ := h
  have hlt : ptr + toPage ptr < 2 ^ 32 := by
    unfold toPage at *
    omega
  have hsplit := (mmapping_right_iff file offset pid hptr hsize).2 ⟨hle, by omega, hlt⟩
  refine ⟨hsplit, hsize, rfl, ?_⟩
  intro hbig
  have hcont : _ = ptr + _ := hsplit.contiguous
  have hcover : _ = size := hsplit.cover
  have hbig' : 4096 < size := hbig
  omega

theorem Sound.covers (hs : Sound m) (id : ℕ) (ha : m.InPages a) : (m.region id).covers a = true := by
  have hend := hs.pageEnd ha.1
  simp only [Region.covers, Mmapping.region, hs.pages_size, add32_of_lt hend, Bool.and_eq_true, decide_eq_true_eq]
  exact ⟨ha.2.1, ha.2.2⟩

/-- **`mm2_mmap` makes a mapping that shows the file.** -/
theorem Inv.of_mmap {id : ℕ} (hs : Sound (mmapping ptr file offset size w.current))
    (hin : offset + size ≤ (w.files file).size) (hfresh : Fresh w (mmapping ptr file offset size w.current))
    (h : mm2Mmap w ptr file offset size = some (id, w')) : Inv w' (mmapping ptr file offset size w.current) id
      (fun k => (w.files file).byteAt (offset + k)) (w.files file).byteAt := by
  obtain ⟨x, hx, heq⟩ := map_eq_some_iff.1 h
  obtain ⟨hsteady, hmapped, hpages⟩ := doMapping_spec hs rfl hin hx
  generalize hm : mmapping ptr file offset size w.current = m at *
  have hfile : m.file = file := by rw [← hm]; rfl
  have hoffset : m.offset = offset := by rw [← hm]; rfl
  have hsz : m.size = size := by rw [← hm]; rfl
  have hpid : m.pid = w.current := by rw [← hm]; rfl
  subst hfile hoffset
  dsimp only at heq
  obtain ⟨hid, hw'⟩ := Prod.mk.inj heq
  -- the mapping and its region do not change memory or files
  have hworld : w'.pages = x.pages ∧ w'.files = x.files ∧
      w'.mmappings = x.mmappings.filter (fun p => p.1 != id) ++ [(id, m)] ∧
      (4096 < m.size → w'.regions = (addRegion x (m.regionDir x.current) (m.region id)).regions) := by
    rw [hid] at hw'
    split at hw'
    · rw [← hw']
      exact ⟨rfl, rfl, rfl, fun _ => rfl⟩
    · rename_i hsmall
      rw [← hw']
      exact ⟨rfl, rfl, rfl, fun hbig => absurd (hsz ▸ hbig) hsmall⟩
  obtain ⟨hp, hf, hmm, hreg⟩ := hworld
  have hbyteAt : ∀ a, w'.byteAt m.pid a = x.byteAt m.pid a := by
    intro a
    rw [World.byteAt, World.byteAt, hp]
  refine ⟨hs, ?_, ?_, ?_, ?_, ?_, ?_⟩
  · rw [hmm]
    exact lookup_filter_append_self _ _ _
  · intro a ha
    obtain ⟨hcurrent, hkernel, hhalf⟩ := hfresh a ha
    have hcov := hs.covers id ha
    refine ⟨m.region id, rfl, rfl, ?_⟩
    have hadd : ∀ l : List Region, l.find? (·.covers a) = none →
        (l ++ [m.region id]).find? (·.covers a) = some (m.region id) := by
      intro l hl
      rw [List.find?_append, hl, none_or]
      exact List.find?_cons_of_pos hcov
    rw [hreg ha.1, hpid]
    unfold addRegion Mmapping.regionDir
    simp only [hsteady.regions, hsteady.current]
    by_cases hlow : m.addr < kernelBoundary
    · rw [if_pos hlow]
      by_cases hk : w.current = kernelPid
      · left
        rw [hk, update_self]
        exact hadd _ hkernel
      · right
        rw [update_of_ne hk, update_self]
        exact ⟨hcurrent, hhalf hlow, hadd _ hkernel⟩
    · left
      rw [if_neg hlow, update_self]
      exact hadd _ hcurrent
  · intro a hle hlt hout
    rw [isMapped, hbyteAt, hmapped a hle hlt hout]
    rfl
  · intro k hk
    by_cases hin' : m.InPages (m.addr + k)
    · rw [sees_of_unmapped ((hbyteAt _).trans (hpages _ hin')), hf, hsteady.bytes, Nat.add_sub_cancel_left]
    · have hb := hmapped _ (Nat.le_add_right _ _) (by omega) hin'
      rw [Nat.add_sub_cancel_left] at hb
      exact sees_of_byteAt ((hbyteAt _).trans hb)
  · rw [hf]
    exact hsteady.bytes
  · rw [hf, hsteady.size, hsz]
    exact hin

end Mapping

end Btos.Kernel.Mm2.Mmap
