import Btos.Kernel.Mm2.Mmap

/-!
# Accesses to memory with mapped files

The bytes that a process sees, and the faults that map pages on the way.  `Settled` is what all operations have in
common: regions, mappings and processes stay as they are.

* `mmapRead_spec` — **a fault in a mapped file** gives the page the bytes of the file and nothing else.
-/

namespace Btos.Kernel.Mm2.Mmap

open Lib.Word Lib.Loop Function List Option FileHandle

/-! ### Files -/

theorem FileHandle.seek_afterRead_seek (f : FileHandle) (p n : ℕ) :
    ((f.seek p).afterRead n).seek f.pos = f := by
  cases f with
  | mk byteAt size pos writable pos_le =>
    have hmin : min pos size = pos := Nat.min_eq_left pos_le
    simp only [seek, afterRead, hmin]

theorem FileHandle.seek_pos {f : FileHandle} {p : ℕ} (h : p ≤ f.size) : (f.seek p).pos = p := Nat.min_eq_left h

theorem FileHandle.read_length (f : FileHandle) (n : ℕ) : (f.read n).length = f.readCount n := by
  rw [read, length_map, length_range]

theorem FileHandle.read_getD {f : FileHandle} {n i : ℕ} (hi : i < f.readCount n) :
    (f.read n).getD i 0 = f.byteAt (f.pos + i) := by
  simp [read, List.getD, getElem?_map, getElem?_range hi]

/-- `Read` at a position gets all the bytes, if they are in the file. -/
theorem FileHandle.seek_readCount {f : FileHandle} {p n : ℕ} (h : p + n ≤ f.size) :
    (f.seek p).readCount n = n := by
  have hpos : (f.seek p).pos = p := f.seek_pos (by omega)
  have hsize : (f.seek p).size = f.size := rfl
  rw [readCount, hpos]
  omega

/-! ### Memory -/

section

variable {w w' : World} {d : Pid}

variable {addr a n : ℕ}

/-- The byte of a page at an offset. -/
def PageState.byte (p : PageState) (i : ℕ) : Option Byte :=
  match p with
  | .mapped bytes => some (bytes i)
  | _ => none

theorem byteAt_eq (w : World) (d : Pid) (a : ℕ) : w.byteAt d a = (w.pages (slot d (a / 4096))).byte (a % 4096) := rfl

theorem byteAt_setPage (w : World) (d e : Pid) (addr a : ℕ) (p : PageState) : (w.setPage d addr p).byteAt e a =
    if slot e (a / 4096) = slot d (addr / 4096) then p.byte (a % 4096) else w.byteAt e a := by
  rw [byteAt_eq, World.setPage, pageSize]
  simp only [update_apply]
  split
  · rfl
  · rfl

theorem slot_ne_of_mapped (hd : isMapped w d addr = false) (he : w.byteAt e a = some b) :
    slot e (a / 4096) ≠ slot d (addr / 4096) := by
  intro heq
  rw [byteAt_eq, heq] at he
  rw [isMapped, byteAt_eq] at hd
  cases hp : w.pages (slot d (addr / 4096)) with
  | mapped bytes =>
    rw [hp] at hd
    cases hd
  | empty | guard =>
    rw [hp] at he
    cases he

theorem isMapped_eq_true : isMapped w d a = true ↔ ∃ b, w.byteAt d a = some b := isSome_iff_exists

theorem isMapped_page (h : a / 4096 = addr / 4096) : isMapped w d a = isMapped w d addr := by
  rw [isMapped, isMapped, byteAt_eq, byteAt_eq, h]
  cases w.pages (slot d (addr / 4096)) <;> rfl

/-- What accesses to memory and files leave as it is. -/
structure Settled (w w' : World) : Prop where
  regions : w'.regions = w.regions
  live : w'.live = w.live
  current : w'.current = w.current
  mmappings : w'.mmappings = w.mmappings

theorem Settled.refl (w : World) : Settled w w := ⟨rfl, rfl, rfl, rfl⟩

theorem Settled.trans (h : Settled w w') (h' : Settled w' w'') : Settled w w'' :=
  ⟨h'.regions.trans h.regions, h'.live.trans h.live, h'.current.trans h.current, h'.mmappings.trans h.mmappings⟩

structure Rest (w w' : World) : Prop extends Settled w w' where
  files : w'.files = w.files

theorem Rest.refl (w : World) : Rest w w := ⟨.refl w, rfl⟩

theorem Rest.trans (h : Rest w w') (h' : Rest w' w'') : Rest w w'' :=
  ⟨h.toSettled.trans h'.toSettled, h'.files.trans h.files⟩

/-- The page at `addr` is filled by a fault of the current process. -/
structure Filled (w w' : World) (addr : ℕ) (bytes : ℕ → Byte) : Prop where
  rest : Rest w w'
  pages : w'.pages = (w.setPage w.current addr (.mapped bytes)).pages
  free : w'.freePages + 1 = w.freePages

theorem Filled.byteAt_of_ne (h : Filled w w' addr bytes)
    (hne : slot e (a / 4096) ≠ slot w.current (addr / 4096)) : w'.byteAt e a = w.byteAt e a := by
  rw [byteAt_eq, h.pages, ← byteAt_eq, byteAt_setPage, if_neg hne]

theorem Filled.byteAt_page (h : Filled w w' addr bytes)
    (hpage : a / 4096 = addr / 4096) : w'.byteAt w.current a = some (bytes (a % 4096)) := by
  rw [byteAt_eq, h.pages, ← byteAt_eq, byteAt_setPage, if_pos (by rw [hpage])]
  rfl

/-- **A fault in a mapped file**: the page is filled with the bytes of the file. -/
theorem mmapRead_spec {id addr : ℕ} (haddr : addr < 2 ^ 32) (h : mmapRead w id addr = some w') :
    ∃ m bytes, w.mmappings.lookup id = some m ∧ Filled w w' addr bytes ∧ ∀ i < 4096, bytes i =
        (w.files m.file).byteAt (sub32 (addressOf addr) m.pageAddr + m.pageOffset + i) := by
  obtain ⟨m, hm, h⟩ := bind_eq_some_iff.1 h
  simp only at h
  obtain ⟨-, h⟩ := ite_none_left_eq_some.1 h
  obtain ⟨x, hx, h⟩ := bind_eq_some_iff.1 h
  unfold mapPageAt at hx
  obtain ⟨hfree, hx⟩ := ite_none_left_eq_some.1 hx
  cases hx
  obtain ⟨hread, h⟩ := ite_none_left_eq_some.1 h
  rw [not_or, not_not, not_not, read_length] at hread
  obtain ⟨hpos, hcount⟩ := hread
  have hpage : addressOf addr / pageSize = addr / 4096 := addressOf_div haddr
  refine ⟨m, fun i => (((w.files m.file).seek
    (sub32 (addressOf addr) m.pageAddr + m.pageOffset)).read pageSize).getD i 0, hm, ?_, ?_⟩
  · cases h
    refine ⟨⟨⟨rfl, rfl, rfl, rfl⟩, ?_⟩, ?_, ?_⟩
    · show update w.files m.file _ = w.files
      rw [seek_afterRead_seek, update_eq_self]
    · show update (update w.pages (slot w.current (addressOf addr / pageSize)) _)
        (slot w.current (addressOf addr / pageSize)) _ = _
      rw [update_idem, hpage]
      rfl
    · show w.freePages - 1 + 1 = w.freePages
      omega
  · intro i hi
    dsimp only
    rw [read_getD (by rw [hcount]; exact hi), hpos]
    rfl

/-! ### Accesses -/

/-- The region that serves a fault of the current process. -/
def serving (w : World) (addr : ℕ) : Option Region :=
  match (w.regions w.current).find? (·.covers addr) with
  | some r => some r
  | none =>
      if isMapped w kernelPid addr then none else (w.regions kernelPid).find? (·.covers addr)

/-- **A page fault is handled by the region that serves it.** -/
theorem pageFault_eq (hnot : isMapped w w.current addr = false) :
    pageFault w addr = (serving w addr).bind fun r =>
      match r.pfHandle with
      | .mmapRead => mmapRead w r.id addr
      | .shmPfHandler => none := by
  unfold pageFault serving handlePf
  simp only [hnot, Bool.false_eq_true, if_false]
  cases (w.regions w.current).find? (·.covers addr) with
  | some r =>
    simp only [bind_some]
    cases r.pfHandle with
    | mmapRead =>
      cases mmapRead w r.id addr <;> rfl
    | shmPfHandler => rfl
  | none =>
    simp only [bind_some, Bool.false_eq_true, if_false]
    split
    · rfl
    · cases (w.regions kernelPid).find? (·.covers addr) with
      | none => rfl
      | some r =>
        simp only [bind_some]
        cases r.pfHandle with
        | mmapRead =>
          cases mmapRead w r.id addr <;> rfl
        | shmPfHandler => rfl

/-- **An access**: nothing happens if the page is mapped, otherwise the page is filled from the file of
the mapping whose region serves the fault. -/
theorem touch_spec (haddr : addr < 2 ^ 32) (h : touch w addr = some w') :
    (isMapped w w.current addr = true ∧ w' = w) ∨ (isMapped w w.current addr = false ∧
      ∃ r m bytes, serving w addr = some r ∧ w.mmappings.lookup r.id = some m ∧
        Filled w w' addr bytes ∧ ∀ i < 4096, bytes i =
          (w.files m.file).byteAt (sub32 (addressOf addr) m.pageAddr + m.pageOffset + i)) := by
  unfold touch at h
  split at h
  · rename_i hm
    cases h
    exact .inl ⟨hm, rfl⟩
  · rename_i hm
    have hm' := eq_false_of_ne_true hm
    rw [pageFault_eq hm'] at h
    obtain ⟨r, hr, h⟩ := bind_eq_some_iff.1 h
    split at h
    · obtain ⟨m, bytes, hlook, hfilled, hbytes⟩ := mmapRead_spec haddr h
      exact .inr ⟨hm', r, m, bytes, hr, hlook, hfilled, hbytes⟩
    · cases h

theorem touch_keeps (haddr : addr < 2 ^ 32) (h : touch w addr = some w') :
    Rest w w' ∧ ∀ e a b, w.byteAt e a = some b → w'.byteAt e a = some b := by
  rcases touch_spec haddr h with ⟨-, rfl⟩ | ⟨hm, r, m, bytes, -, -, hfilled, -⟩
  · exact ⟨.refl _, fun _ _ _ => id⟩
  · refine ⟨hfilled.rest, fun e a b hb => ?_⟩
    rw [hfilled.byteAt_of_ne (slot_ne_of_mapped hm hb)]
    exact hb

theorem readByte_of_mapped (h : w.byteAt w.current addr = some b) : readByte w addr = some (b, w) := by
  have hm : isMapped w w.current addr = true := isMapped_eq_true.2 ⟨b, h⟩
  rw [readByte, touch, if_pos hm, bind_some, h, map_some]

theorem byteAt_poke (b : Byte) (hpage : w.pages (slot d (addr / pageSize)) = .mapped bytes) :
    (w.setPage d addr (.mapped (update bytes (addr % pageSize) b))).byteAt d a =
      if a = addr then some b else w.byteAt d a := by
  rw [byteAt_setPage]
  by_cases ha : a = addr
  · subst ha
    rw [if_pos rfl, if_pos rfl]
    exact congrArg some (update_self ..)
  · split
    · rename_i hslot
      have hidx := (slot_inj hslot).1
      have hoff : a % 4096 ≠ addr % 4096 := by omega
      rw [byteAt_eq, hslot]
      exact (congrArg some (update_of_ne hoff ..)).trans (congrArg (PageState.byte · (a % 4096)) hpage).symm
    · rfl

/-- **A byte is written**: it is there, and every other byte that was mapped stays. -/
theorem writeByte_spec (haddr : addr < 2 ^ 32) (h : writeByte w addr b = some w') :
    Rest w w' ∧ w'.byteAt w.current addr = some b ∧
      ∀ a c, a ≠ addr → w.byteAt w.current a = some c → w'.byteAt w.current a = some c := by
  obtain ⟨x, hx, h⟩ := bind_eq_some_iff.1 h
  obtain ⟨hrest, hkept⟩ := touch_keeps haddr hx
  split at h
  · rename_i bytes hpage
    cases h
    refine ⟨hrest.trans ⟨⟨rfl, rfl, rfl, rfl⟩, rfl⟩, ?_, ?_⟩
    · rw [← hrest.current, byteAt_poke b hpage, if_pos rfl]
    · intro a c hne hc
      have hxc := hkept _ a c hc
      rw [← hrest.current] at hxc ⊢
      rw [byteAt_poke b hpage, if_neg hne]
      exact hxc
  · cases h

/-- **Bytes are written** to a range: they are there, and what was mapped outside of it stays. -/
theorem writeBytes_spec (hrange : addr + bytes.length ≤ 2 ^ 32) (h : writeBytes w addr bytes = some w') :
    Rest w w' ∧ (∀ i < bytes.length, w'.byteAt w.current (addr + i) = some (bytes.getD i 0)) ∧
      ∀ a c, (a < addr ∨ addr + bytes.length ≤ a) → w.byteAt w.current a = some c →
        w'.byteAt w.current a = some c := by
  refine turns_invariant (fun n u => Rest w u ∧
    (∀ i < n, u.byteAt w.current (addr + i) = some (bytes.getD i 0)) ∧
      ∀ a c, (a < addr ∨ addr + n ≤ a) → w.byteAt w.current a = some c →
        u.byteAt w.current a = some c) ⟨.refl w, ?_, ?_⟩ bytes.length ?_ h
  · intro i hi
    omega
  · intro a c _ hc
    exact hc
  · rintro n hn u v - ⟨hrest, hin, hout⟩ hv
    have hlt : addr + n < 2 ^ 32 := by omega
    rw [add32_of_lt hlt] at hv
    obtain ⟨hrest', hnew, hold⟩ := writeByte_spec hlt hv
    rw [hrest.current] at hnew hold
    refine ⟨hrest.trans hrest', ?_, ?_⟩
    · intro i hi
      by_cases heq : i = n
      · rw [heq]
        exact hnew
      · exact hold _ _ (by omega) (hin i (by omega))
    · intro a c ha hc
      exact hold a c (by omega) (hout a c (by omega) hc)

/-- **Bytes are read** from pages that are mapped; nothing changes. -/
theorem readBytes_mapped (hrange : addr + n ≤ 2 ^ 32)
    (h : ∀ i < n, w.byteAt w.current (addr + i) = some (f i)) :
    readBytes w addr n = some ((List.range n).map f, w) := by
  unfold readBytes
  induction n with
  | zero => rfl
  | succ n ih =>
    have hlt : addr + n < 2 ^ 32 := by omega
    rw [turns, ih (by omega) fun i hi => h i (by omega), bind_some, add32_of_lt hlt,
      readByte_of_mapped (h n (by omega)), range_succ, map_append]
    rfl

/-! ### Pages that are given up -/

theorem pageAddr_of_lt (h : addr + i * 4096 < 2 ^ 32) : Mm2.pageAddr addr i = addr + i * 4096 := by
  have hmul : mul32 i pageSize = i * 4096 := Nat.mod_eq_of_lt (by rw [pageSize]; omega)
  rw [Mm2.pageAddr, hmul, add32_of_lt h]

theorem byteAt_setPage_unmapped (w : World) (hp : p = .empty ∨ p = .guard) :
    (w.setPage w.current addr p).byteAt w.current a =
      if a / 4096 = addr / 4096 then none else w.byteAt w.current a := by
  rw [byteAt_setPage]
  by_cases hidx : a / 4096 = addr / 4096
  · rw [if_pos (by rw [hidx]), if_pos hidx]
    rcases hp with rfl | rfl <;> rfl
  · rw [if_neg hidx, if_neg fun h => hidx (slot_inj h).1]

/-- The pages from `addr` are not mapped, and everything else is as before. -/
structure Unmapped (w w' : World) (addr n : ℕ) : Prop where
  rest : Rest w w'
  free : w.freePages ≤ w'.freePages
  inside : ∀ a, addr ≤ a → a < addr + n * 4096 → w'.byteAt w.current a = none
  outside : ∀ a, (a < addr ∨ addr + n * 4096 ≤ a) → w'.byteAt w.current a = w.byteAt w.current a

theorem Unmapped.trans (h : Unmapped w w' addr n) (h' : Unmapped w' w'' addr n) : Unmapped w w'' addr n where
  rest := h.rest.trans h'.rest
  free := h.free.trans h'.free
  inside a hle hlt := by
    rw [← h.rest.current]
    exact h'.inside a hle hlt
  outside a ha := by
    rw [← h.outside a ha, ← h.rest.current]
    exact h'.outside a ha

theorem Unmapped.none (w : World) (addr : ℕ) : Unmapped w w addr 0 := by
  refine ⟨.refl w, Nat.le_refl _, ?_, fun _ _ => rfl⟩
  intro a _ _
  omega

theorem Unmapped.snoc (h : Unmapped w u addr n) (halign : addr % 4096 = 0) (hrest : Rest u v)
    (hfree : u.freePages ≤ v.freePages)
    (hbyte : ∀ a, v.byteAt u.current a = if a / 4096 = (addr + n * 4096) / 4096 then .none else u.byteAt u.current a)
    : Unmapped w v addr (n + 1) := by
  rw [h.rest.current] at hbyte
  refine ⟨h.rest.trans hrest, h.free.trans hfree, ?_, ?_⟩
  · intro a hle hlt
    rw [Nat.succ_mul, ← Nat.add_assoc] at hlt
    rw [hbyte]
    split
    · rfl
    · exact h.inside a hle (by omega)
  · intro a ha
    rw [Nat.succ_mul, ← Nat.add_assoc] at ha
    rw [hbyte, if_neg (by omega)]
    exact h.outside a (by omega)

/-- **`free_pages`.** -/
theorem freePages_unmapped (w : World) (halign : addr % 4096 = 0) (hrange : addr + n * 4096 ≤ 2 ^ 32) :
    Unmapped w (freePages w addr n) addr n := by
  induction n with
  | zero => exact .none w addr
  | succ n ih =>
    rw [Nat.succ_mul, ← Nat.add_assoc] at hrange
    have hold := ih (by omega)
    rw [freePages, pageAddr_of_lt (by omega)]
    generalize freePages w addr n = u at hold
    refine hold.snoc halign ⟨⟨rfl, rfl, rfl, rfl⟩, rfl⟩ ?_ fun a => byteAt_setPage_unmapped u (.inl rfl)
    show u.freePages ≤
      if isMapped u u.current (addr + n * 4096) then u.freePages + 1 else u.freePages
    split
    · exact Nat.le_succ _
    · exact Nat.le_refl _

/-- **Guard pages** where nothing is mapped. -/
theorem guardPages_unmapped (halign : addr % 4096 = 0) (hrange : addr + n * 4096 ≤ 2 ^ 32)
    (hnone : ∀ a, addr ≤ a → a < addr + n * 4096 → w.byteAt w.current a = none) :
    ∃ w', turns (fun i w => guardPageAt w (Mm2.pageAddr addr i)) n w = some w' ∧ Unmapped w w' addr n := by
  induction n with
  | zero => exact ⟨w, rfl, .none w addr⟩
  | succ n ih =>
    rw [Nat.succ_mul, ← Nat.add_assoc] at hrange hnone
    obtain ⟨u, hu, hold⟩ := ih (by omega) fun a hle hlt => hnone a hle (by omega)
    have hmapped : isMapped u u.current (addr + n * 4096) = false := by
      rw [isMapped, hold.rest.current, hold.outside _ (by omega), hnone _ (by omega) (by omega)]
      rfl
    refine ⟨u.setPage u.current (addr + n * 4096) .guard, ?_, ?_⟩
    · rw [turns, hu, bind_some, pageAddr_of_lt (by omega), guardPageAt, hmapped]
      rfl
    · exact hold.snoc halign ⟨⟨rfl, rfl, rfl, rfl⟩, rfl⟩ (Nat.le_refl _) fun a => byteAt_setPage_unmapped u (.inr rfl)

/-- **Pages that are freed, with guard pages in their place.** -/
theorem guardPages_freed (w : World) (halign : addr % 4096 = 0) (hrange : addr + n * 4096 ≤ 2 ^ 32) :
    ∃ w', turns (fun i w => guardPageAt w (Mm2.pageAddr addr i)) n (freePages w addr n) = some w' ∧
      Unmapped w w' addr n := by
  have hfree := freePages_unmapped w halign hrange
  obtain ⟨w', hw', hguard⟩ := guardPages_unmapped halign hrange fun a hle hlt => by
    rw [hfree.rest.current]
    exact hfree.inside a hle hlt
  exact ⟨w', hw', hfree.trans hguard⟩

end

end Btos.Kernel.Mm2.Mmap
