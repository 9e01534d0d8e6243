import Btos.Kernel.Mm2.MmapMemory

/-!
# What a process sees of a mapped file

* `mmapping_right_iff` — **the split of `mm2_mmap` is right exactly** if the part before the first whole
  page is no longer than the range, the range is one of addresses, and there is a page after its first
  one;
* `Inv.touched` — **an access by the process changes nothing of what it sees**;
* `Inv.written` — **what the process writes it sees**, and it sees nothing else change.
-/

namespace Btos.Kernel.Mm2.Mmap

open Lib.Word Lib.Bits Lib.Loop Option

/-! ### The split -/

/-- The bytes from an address to the next page. -/
def toPage (ptr : ℕ) : ℕ := (4096 - ptr % 4096) % 4096

structure SplitRight (m : Mmapping) : Prop where
  contiguous : m.pageAddr = m.addr + m.pre
  cover : m.pre + m.pages * 4096 + m.post = m.size
  whole : m.pageAddr % 4096 = 0
  pre_lt : m.pre < 4096
  post_lt : m.post < 4096
  fits : m.addr + m.size ≤ 2 ^ 32

section Split

theorem firstPage_eq (hptr : ptr < 2 ^ 32) :
    (if ptr % pageSize ≠ 0 then addressOf (add32 ptr pageSize) else ptr) = (ptr + toPage ptr) % 2 ^ 32 := by
  unfold toPage
  by_cases hal : ptr % pageSize = 0
  · rw [if_neg (not_not.2 hal)]
    rw [pageSize] at hal
    omega
  · rw [if_pos hal]
    rw [pageSize] at hal
    by_cases hlt : ptr + 4096 < 2 ^ 32
    · rw [pageSize, add32_of_lt hlt, addressOf, and_mask_eq hlt]
      omega
    · rw [pageSize, add32_of_ge (by omega) (by omega), addressOf, and_mask_eq (by omega)]
      omega

variable {ptr size : ℕ} (file offset : ℕ) (pid : Pid)

theorem mmapping_pageAddr (size : ℕ) (hptr : ptr < 2 ^ 32) :
    (mmapping ptr file offset size pid).pageAddr = (ptr + toPage ptr) % 2 ^ 32 := firstPage_eq hptr

theorem mmapping_pre (size : ℕ) (hptr : ptr < 2 ^ 32) :
    (mmapping ptr file offset size pid).pre = toPage ptr := by
  show (if ptr % pageSize ≠ 0 then sub32 (mmapping ptr file offset size pid).pageAddr ptr else 0) = _
  rw [mmapping_pageAddr file offset pid size hptr]
  unfold toPage
  by_cases hal : ptr % pageSize = 0
  · rw [if_neg (not_not.2 hal)]
    rw [pageSize] at hal
    omega
  · rw [if_pos hal]
    by_cases hlt : ptr + (4096 - ptr % 4096) % 4096 < 2 ^ 32
    · rw [Nat.mod_eq_of_lt hlt, sub32_of_le hlt (Nat.le_add_right _ _)]
      omega
    · rw [sub32_of_gt hptr (by omega)]
      omega

theorem mmapping_parts (ptr size : ℕ) :
    (mmapping ptr file offset size pid).pages * 4096 + (mmapping ptr file offset size pid).post =
        sub32 size (mmapping ptr file offset size pid).pre ∧
      (mmapping ptr file offset size pid).post < 4096 := by
  have hsplit : ∀ n : ℕ, n / 4096 * 4096 + (n - n / 4096 * 4096) = n ∧ n - n / 4096 * 4096 < 4096 := by
    intro n
    omega
  exact hsplit (sub32 size (mmapping ptr file offset size pid).pre)

/-- **When the split is right.** -/
theorem mmapping_right_iff (hptr : ptr < 2 ^ 32) (hsize : size < 2 ^ 32) :
    SplitRight (mmapping ptr file offset size pid) ↔
      toPage ptr ≤ size ∧ ptr + size ≤ 2 ^ 32 ∧ ptr + toPage ptr < 2 ^ 32 := by
  have hpage := mmapping_pageAddr file offset pid size hptr
  have hpre := mmapping_pre file offset pid size hptr
  obtain ⟨hparts, hpost⟩ := mmapping_parts file offset pid ptr size
  have htoPage : toPage ptr < 4096 := Nat.mod_lt _ (by decide)
  constructor
  · rintro ⟨hcont, hcover, -, -, -, hfits⟩
    have hfits' : ptr + size ≤ 2 ^ 32 := hfits
    have hcover' : _ = size := hcover
    rw [hpage] at hcont
    refine ⟨?_, hfits', ?_⟩ <;> omega
  · rintro ⟨hle, hfits, hlt⟩
    rw [hpre, sub32_of_le hsize hle] at hparts
    rw [Nat.mod_eq_of_lt hlt] at hpage
    refine ⟨?_, ?_, ?_, ?_, hpost, hfits⟩
    · rw [hpage, hpre]
      rfl
    · show _ = size
      omega
    · rw [hpage, toPage]
      omega
    · rw [hpre]
      exact htoPage

end Split

/-! ### What is seen -/

/-- The address is in a whole page of the mapping, which is read when it is touched. -/
def Mmapping.InPages (m : Mmapping) (a : ℕ) : Prop :=
  4096 < m.size ∧ m.pageAddr ≤ a ∧ a < m.pageAddr + m.pages * 4096

/-- The mapping can be served: its parts are right, and the end of its pages is an address. -/
structure Sound (m : Mmapping) : Prop where
  split : SplitRight m
  size_lt : m.size < 2 ^ 32
  pageOffset : m.pageOffset = m.offset + m.pre
  pageEnd : 4096 < m.size → m.pageAddr + m.pages * 4096 < 2 ^ 32

/-- Faults of the process in the pages of the mapping go to its region. -/
def Served (w : World) (m : Mmapping) (id : ℕ) : Prop :=
  ∀ a, m.InPages a → ∃ r : Region, r.id = id ∧ r.pfHandle = .mmapRead ∧
    ((w.regions m.pid).find? (·.covers a) = some r ∨
      ((w.regions m.pid).find? (·.covers a) = none ∧ a < kernelBoundary ∧
        (w.regions kernelPid).find? (·.covers a) = some r))

/-- The byte that a mapping shows at an address. -/
def sees (w : World) (m : Mmapping) (a : ℕ) : Byte :=
  (w.byteAt m.pid a).getD ((w.files m.file).byteAt (m.offset + (a - m.addr)))

/-- **The invariant**: the mapping shows `view`, and the file holds `file`. -/
structure Inv (w : World) (m : Mmapping) (id : ℕ) (view file : ℕ → Byte) : Prop where
  sound : Sound m
  lookup : w.mmappings.lookup id = some m
  served : Served w m id
  resident : ∀ a, m.addr ≤ a → a < m.addr + m.size → ¬m.InPages a → isMapped w m.pid a = true
  shows : ∀ k < m.size, sees w m (m.addr + k) = view k
  holds : (w.files m.file).byteAt = file
  inFile : m.offset + m.size ≤ (w.files m.file).size

section View

variable {w w' : World} {m : Mmapping} {id : ℕ} {view file : ℕ → Byte}

variable {a : ℕ}

theorem sees_of_byteAt (h : w.byteAt m.pid a = some b) : sees w m a = b := by
  rw [sees, h, getD_some]

theorem sees_of_unmapped (h : w.byteAt m.pid a = none) :
    sees w m a = (w.files m.file).byteAt (m.offset + (a - m.addr)) := by
  rw [sees, h, getD_none]

/-- **The mapping goes on**, with what is seen and held after a step, while its regions, its pages outside of
the whole ones and the size of its file are as before. -/
theorem Inv.step (h : Inv w m id view file) (hregions : w'.regions = w.regions)
    (hmmappings : w'.mmappings = w.mmappings) (hsize : (w'.files m.file).size = (w.files m.file).size)
    (hmapped : ∀ a, ¬m.InPages a → isMapped w m.pid a = true → isMapped w' m.pid a = true)
    (hshows : ∀ k < m.size, sees w' m (m.addr + k) = view' k) (hholds : (w'.files m.file).byteAt = file') :
    Inv w' m id view' file' := by
  refine ⟨h.sound, by rw [hmmappings]; exact h.lookup, ?_, ?_, hshows, hholds, by rw [hsize]; exact h.inFile⟩
  · intro a ha
    rw [hregions]
    exact h.served a ha
  · intro a hle hlt hout
    exact hmapped a hout (h.resident a hle hlt hout)

theorem Inv.switched (h : Inv w m id view file) (pid : Pid) : Inv { w with current := pid } m id view file :=
  ⟨h.sound, h.lookup, h.served, h.resident, h.shows, h.holds, h.inFile⟩

theorem Inv.seek (h : Inv w m id view file) (p : ℕ) : Inv (w.seek m.file p) m id view file := by
  have hfile : (w.seek m.file p).files m.file = (w.files m.file).seek p := Function.update_self ..
  refine h.step rfl rfl (by rw [hfile]; rfl) (fun _ _ hm => hm) (fun k hk => ?_) ?_
  · rw [← h.shows k hk, sees, hfile]
    rfl
  · rw [hfile]
    exact h.holds

theorem of_switchProcess (h : switchProcess w pid = some w') :
    w.live pid = true ∧ { w with current := pid } = w' := by
  obtain ⟨hlive, h⟩ := ite_none_right_eq_some.1 h
  exact ⟨hlive, some.inj h⟩

theorem Sound.inPages_page (hs : Sound m) (ha : m.InPages a)
    (hpage : addr / 4096 = a / 4096) : m.InPages addr := by
  have hwhole := hs.split.whole
  obtain ⟨hsize, hle, hlt⟩ := ha
  refine ⟨hsize, ?_, ?_⟩ <;> omega

theorem Sound.inPages_range (hs : Sound m) (ha : m.InPages a) :
    m.addr ≤ a ∧ a < m.addr + m.size ∧ a < 2 ^ 32 := by
  obtain ⟨hcont, hcover, -, -, -, hfits⟩ := hs.split
  obtain ⟨hsize, hle, hlt⟩ := ha
  refine ⟨?_, ?_, ?_⟩ <;> omega

theorem Inv.inPages_of_unmapped (h : Inv w m id view file) (hle : m.addr ≤ a) (hlt : a < m.addr + m.size)
    (hnot : isMapped w m.pid a = false) : m.InPages a := by
  by_contra hout
  rw [h.resident a hle hlt hout] at hnot
  cases hnot

theorem byteAt_of_not_mapped (h : isMapped w d a = false) : w.byteAt d a = none :=
  isNone_iff_eq_none.1 (by rw [← not_isSome, Bool.not_eq_true']; exact h)

/-- **The region of the mapping serves its pages.** -/
theorem Inv.serving_region (h : Inv w m id view file) (hcur : w.current = m.pid) (ha : m.InPages a)
    (hnot : isMapped w m.pid a = false) : ∃ r, serving w a = some r ∧ r.id = id ∧ r.pfHandle = .mmapRead := by
  obtain ⟨r, hid, hpf, hfind⟩ := h.served a ha
  refine ⟨r, ?_, hid, hpf⟩
  rw [serving, hcur]
  rcases hfind with hfind | ⟨hnone, hlt, hfind⟩
  · rw [hfind]
  · -- an address of the kernel half is mapped for all processes or for none
    have hslot : slot kernelPid (a / pageSize) = slot m.pid (a / pageSize) := by
      refine slot_kernel _ _ ?_
      simp only [kernelBoundary, kernelPages, pageSize] at *
      omega
    have hkernel : isMapped w kernelPid a = false := by
      rw [← hnot]
      simp only [isMapped, World.byteAt, hslot]
    rw [hnone, hkernel]
    exact hfind

theorem Sound.read_offset (hs : Sound m) (ha : m.InPages a)
    (hpage : a / 4096 = addr / 4096) (haddr : addr < 2 ^ 32) :
    sub32 (addressOf addr) m.pageAddr + m.pageOffset + a % 4096 = m.offset + (a - m.addr) := by
  have hin := hs.inPages_page ha hpage.symm
  have hwhole := hs.split.whole
  have hcont := hs.split.contiguous
  obtain ⟨-, hle, -⟩ := hin
  have hmask : addressOf addr = addr / 4096 * 4096 := and_mask_eq haddr
  rw [sub32_of_le (by omega) (by omega), hs.pageOffset]
  omega

/-- **An access by the process changes nothing of what it sees.** -/
theorem Inv.touched (h : Inv w m id view file) (hcur : w.current = m.pid)
    (haddr : addr < 2 ^ 32) (ht : touch w addr = some w') : Inv w' m id view file := by
  rcases touch_spec haddr ht with ⟨-, rfl⟩ | ⟨hnot, r, m', bytes, hr, hlook, hfilled, hbytes⟩
  · exact h
  · have hrest := hfilled.rest
    rw [hcur] at hnot
    have hkept := (touch_keeps haddr ht).2
    refine h.step hrest.regions hrest.mmappings (by rw [hrest.files]) ?_ ?_ ?_
    · intro a _ hmapped
      obtain ⟨b, hb⟩ := isMapped_eq_true.1 hmapped
      exact isMapped_eq_true.2 ⟨b, hkept _ a b hb⟩
    · intro k hk
      rw [← h.shows k hk]
      by_cases hpage : (m.addr + k) / 4096 = addr / 4096
      · -- the page that is filled is one of the mapping
        have hnot' : isMapped w m.pid (m.addr + k) = false := (isMapped_page hpage).trans hnot
        have hin := h.inPages_of_unmapped (Nat.le_add_right _ _) (by omega) hnot'
        obtain ⟨r', hr', hid, -⟩ := h.serving_region hcur (h.sound.inPages_page hin hpage.symm) hnot
        cases hr.symm.trans hr'
        rw [hid, h.lookup] at hlook
        cases hlook
        have hfill := hfilled.byteAt_page hpage
        rw [hcur] at hfill
        rw [sees_of_byteAt hfill, sees_of_unmapped (byteAt_of_not_mapped hnot'),
          hbytes _ (Nat.mod_lt _ (by decide)), h.sound.read_offset hin hpage haddr]
      · have hsame : w'.byteAt m.pid (m.addr + k) = w.byteAt m.pid (m.addr + k) :=
          hfilled.byteAt_of_ne fun heq => hpage (slot_inj heq).1
        rw [sees, sees, hsame, hrest.files]
    · rw [hrest.files]
      exact h.holds

theorem Sound.pages_size (hs : Sound m) : mul32 m.pages pageSize = m.pages * 4096 := by
  have hcover := hs.split.cover
  have hlt := hs.size_lt
  exact Nat.mod_eq_of_lt (by rw [pageSize]; omega)

theorem Sound.postAddr (hs : Sound m) (hbig : 4096 < m.size) :
    m.postAddr = m.addr + (m.pre + m.pages * 4096) := by
  rw [Mmapping.postAddr, hs.pages_size, add32_of_lt (hs.pageEnd hbig), hs.split.contiguous, Nat.add_assoc]

theorem Sound.postOffset (hs : Sound m) : m.postOffset = m.offset + (m.pre + m.pages * 4096) := by
  rw [Mmapping.postOffset, hs.pages_size, hs.pageOffset, Nat.add_assoc]

/-- **`mmap_read` returns** in the pages of the mapping, if a physical page is free. -/
theorem Inv.fault_returns (h : Inv w m id view file) (ha : m.InPages a) (hfree : 0 < w.freePages) :
    ∃ w', mmapRead w id a = some w' := by
  obtain ⟨hlo, hhi, hlt⟩ := h.sound.inPages_range ha
  have hend := h.sound.pageEnd ha.1
  have hcover := h.sound.split.cover
  have hwhole := h.sound.split.whole
  have hin := h.inFile
  obtain ⟨hsize, hle, hltp⟩ := ha
  have hbound : ¬(a < m.pageAddr ∨ a > add32 m.pageAddr (mul32 m.pages pageSize)) := by
    rw [h.sound.pages_size, add32_of_lt hend]
    omega
  have hmask : addressOf a = a / 4096 * 4096 := and_mask_eq hlt
  have hofs : sub32 (addressOf a) m.pageAddr + m.pageOffset + 4096 ≤ (w.files m.file).size := by
    rw [sub32_of_le (by omega) (by omega), h.sound.pageOffset]
    omega
  have hread : ¬(((w.files m.file).seek (sub32 (addressOf a) m.pageAddr + m.pageOffset)).pos ≠
      sub32 (addressOf a) m.pageAddr + m.pageOffset ∨
        (((w.files m.file).seek (sub32 (addressOf a) m.pageAddr + m.pageOffset)).read
          pageSize).length ≠ pageSize) := by
    rw [not_or, not_not, not_not, FileHandle.read_length]
    exact ⟨FileHandle.seek_pos (by omega), FileHandle.seek_readCount hofs⟩
  have hmap : mapPageAt w (addressOf a) = some _ := if_neg (Nat.ne_of_gt hfree)
  unfold mmapRead
  simp only [h.lookup, bind_some, if_neg hbound, hmap, if_neg hread]
  exact ⟨_, rfl⟩

/-- **A byte that is read is the one that is seen**, and it is read if its page is mapped or a physical
page is free. -/
theorem Inv.reads (h : Inv w m id view file) (hcur : w.current = m.pid) (hk : k < m.size)
    (hfree : isMapped w m.pid (m.addr + k) = true ∨ 0 < w.freePages) :
    ∃ w', readByte w (m.addr + k) = some (view k, w') := by
  have hlt : m.addr + k < 2 ^ 32 := by
    have := h.sound.split.fits
    omega
  have htouch : ∃ w', touch w (m.addr + k) = some w' ∧ isMapped w' m.pid (m.addr + k) = true := by
    cases hm : isMapped w m.pid (m.addr + k) with
    | true => exact ⟨w, by rw [touch, hcur, if_pos hm], hm⟩
    | false =>
      have hin := h.inPages_of_unmapped (Nat.le_add_right _ _) (by omega) hm
      obtain ⟨w', hw'⟩ := h.fault_returns hin (hfree.resolve_left (by rw [hm]; decide))
      obtain ⟨r, hr, hid, hpf⟩ := h.serving_region hcur hin hm
      obtain ⟨-, bytes, -, hfilled, -⟩ := mmapRead_spec hlt hw'
      have hbyte := hfilled.byteAt_page rfl
      rw [hcur] at hbyte
      refine ⟨w', ?_, isMapped_eq_true.2 ⟨_, hbyte⟩⟩
      rw [touch, hcur, if_neg (by rw [hm]; decide), pageFault_eq (by rw [hcur]; exact hm), hr,
        bind_some, hpf, hid]
      exact hw'
  obtain ⟨w', hw', hmapped⟩ := htouch
  have hinv := h.touched hcur hlt hw'
  obtain ⟨b, hb⟩ := isMapped_eq_true.1 hmapped
  have hrest := (touch_keeps hlt hw').1
  refine ⟨w', ?_⟩
  rw [readByte, hw', bind_some, hrest.current, hcur, hb, map_some, ← hinv.shows k hk, sees_of_byteAt hb]

def writtenAt (m : Mmapping) (view : ℕ → Byte) (addr : ℕ) (b : Byte) : ℕ → Byte :=
  if m.addr ≤ addr then Function.update view (addr - m.addr) b else view

/-- **What the process writes it sees.** -/
theorem Inv.written (h : Inv w m id view file) (hcur : w.current = m.pid)
    (haddr : addr < 2 ^ 32) (hw : writeByte w addr b = some w') :
    Inv w' m id (writtenAt m view addr b) file := by
  obtain ⟨x, hx, hw⟩ := bind_eq_some_iff.1 hw
  have hinv := h.touched hcur haddr hx
  have hrest := (touch_keeps haddr hx).1
  split at hw
  · rename_i bytes hpage
    cases hw
    have hpid : x.current = m.pid := hrest.current.trans hcur
    rw [hpid] at hpage ⊢
    have hbyte := fun a => byteAt_poke (a := a) b hpage
    refine hinv.step rfl rfl rfl ?_ ?_ hinv.holds
    · intro a _ hmapped
      obtain ⟨c, hc⟩ := isMapped_eq_true.1 hmapped
      rw [isMapped_eq_true, hbyte]
      split
      · exact ⟨b, rfl⟩
      · exact ⟨c, hc⟩
    · intro k hk
      have hold := hinv.shows k hk
      unfold sees at hold ⊢
      rw [hbyte]
      by_cases heq : m.addr + k = addr
      · rw [if_pos heq, getD_some, writtenAt, if_pos (by omega),
          show k = addr - m.addr by omega, Function.update_self]
      · rw [if_neg heq, writtenAt]
        split
        · rw [Function.update_of_ne (by omega)]
          exact hold
        · exact hold
  · cases hw

end View

end Btos.Kernel.Mm2.Mmap
