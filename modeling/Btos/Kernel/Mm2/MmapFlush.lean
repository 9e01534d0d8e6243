import Btos.Kernel.Mm2.MmapView

/-!
# Writing a mapped file back

`flush_mapping` writes the two parts outside of whole pages, and then each page that is mapped, which it gives up:
the next access reads it anew.  `Progress` is how far it has come, in bytes of the file.

* `Inv.flushed` — **`flush_mapping` writes back exactly what is seen**, and the process goes on seeing it.
-/

namespace Btos.Kernel.Mm2.Mmap

open Lib.Word Lib.Bits Lib.Loop List Option Function FileHandle

section Flush

variable {w w' : World} {m : Mmapping} {id : ℕ} {view file : ℕ → Byte}

/-! ### `Write` -/

theorem Inv.byteAt_eq (h : Inv w m id view file) (hk : k < m.size)
    (hm : isMapped w m.pid (m.addr + k) = true) : w.byteAt m.pid (m.addr + k) = some (view k) := by
  obtain ⟨b, hb⟩ := isMapped_eq_true.1 hm
  rw [← h.shows k hk, sees_of_byteAt hb]
  exact hb

/-- **`Write` at an offset**, from memory that is mapped. -/
theorem fileWrite_spec {h o n addr : ℕ} {g : ℕ → Byte} (hrange : addr + n ≤ 2 ^ 32)
    (hfile : o + n ≤ (w.files h).size) (hbytes : ∀ i < n, w.byteAt w.current (addr + i) = some (g i)) :
    ∃ f, fileWrite (w.seek h o) h n addr = some (w.setFile h f) ∧ f.size = (w.files h).size ∧
      f.writable = (w.files h).writable ∧ (∀ j, o ≤ j → j < o + n → f.byteAt j = g (j - o)) ∧
      ∀ j, (j < o ∨ o + n ≤ j) → f.byteAt j = (w.files h).byteAt j := by
  have hread : readBytes (w.seek h o) addr n = some ((List.range n).map g, w.seek h o) :=
    readBytes_mapped hrange hbytes
  have hseek : ((w.seek h o).files h) = (w.files h).seek o := update_self ..
  have hpos : ((w.files h).seek o).pos = o := seek_pos (by omega)
  have hlen : ((List.range n).map g).length = n := by rw [length_map, length_range]
  refine ⟨((w.files h).seek o).write ((List.range n).map g), ?_, ?_, rfl, ?_, ?_⟩
  · rw [fileWrite, hread, map_some, hseek]
    simp only [World.seek, World.setFile, update_idem]
  · show max (w.files h).size _ = (w.files h).size
    rw [hpos, hlen]
    exact Nat.max_eq_left hfile
  · intro j hle hlt
    show (if _ then _ else _) = _
    rw [hpos, hlen, if_pos ⟨hle, hlt⟩]
    simp [List.getD, getElem?_map, getElem?_range (show j - o < n by omega)]
  · intro j hj
    show (if _ then _ else _) = _
    rw [hpos, hlen, if_neg (by omega)]
    rfl

/-! ### `flush_mapping` -/

/-- The file with the range of the mapping replaced by what is seen. -/
def writtenBack (m : Mmapping) (view file : ℕ → Byte) (j : ℕ) : Byte :=
  if m.offset ≤ j ∧ j < m.offset + m.size then view (j - m.offset) else file j

theorem writtenBack_of_lt (hk : k < m.size) : writtenBack m view file (m.offset + k) = view k := by
  rw [writtenBack, if_pos (by omega), Nat.add_sub_cancel_left]

theorem writtenBack_of_out (hj : j < m.offset ∨ m.offset + m.size ≤ j) :
    writtenBack m view file j = file j := if_neg (by omega)

theorem writtenBack_same (m : Mmapping) (file : ℕ → Byte) :
    writtenBack m (fun k => file (m.offset + k)) file = file := by
  funext j
  unfold writtenBack
  split
  · rename_i hj
    exact congrArg file (Nat.add_sub_cancel' hj.1)
  · rfl

/-- How far a file is written back: the bytes in `done` are, and the others are as before. -/
structure Progress (w u : World) (m : Mmapping) (target : ℕ → Byte) (done : ℕ → Prop) : Prop
    extends Settled w u where
  free : w.freePages ≤ u.freePages
  size : (u.files m.file).size = (w.files m.file).size
  writable : (u.files m.file).writable = (w.files m.file).writable
  written : ∀ j, done j → (u.files m.file).byteAt j = target j
  kept : ∀ j, ¬done j → (u.files m.file).byteAt j = (w.files m.file).byteAt j

theorem Progress.start (w : World) (m : Mmapping) (target : ℕ → Byte) : Progress w w m target fun _ => False :=
  ⟨.refl w, Nat.le_refl _, rfl, rfl, fun _ h => h.elim, fun _ _ => rfl⟩

variable {done : ℕ → Prop} {u : World} {target : ℕ → Byte}

section

variable (h : Progress w u m target done)
include h

/-- **A range of the file is written back.** -/
theorem Progress.fileWrite (o n addr : ℕ) (hrange : addr + n ≤ 2 ^ 32)
    (hfile : o + n ≤ (w.files m.file).size)
    (hbytes : ∀ i < n, u.byteAt w.current (addr + i) = some (target (o + i))) :
    ∃ f, fileWrite (u.seek m.file o) m.file n addr = some (u.setFile m.file f) ∧
      Progress w (u.setFile m.file f) m target fun j => done j ∨ (o ≤ j ∧ j < o + n) := by
  obtain ⟨f, hf, hsize, hwritable, hin, hout⟩ := fileWrite_spec (w := u) (h := m.file) (o := o) hrange
    (by rw [h.size]; exact hfile) (by rw [h.current]; exact hbytes)
  have hself : (u.setFile m.file f).files m.file = f := update_self ..
  refine ⟨f, hf, ⟨h.regions, h.live, h.current, h.mmappings⟩, h.free, ?_, ?_, ?_, ?_⟩
  · rw [hself, hsize, h.size]
  · rw [hself, hwritable, h.writable]
  · intro j hj
    rw [hself]
    by_cases hnew : o ≤ j ∧ j < o + n
    · rw [hin j hnew.1 hnew.2]
      congr 1
      omega
    · rw [hout j (by omega)]
      exact h.written j (hj.resolve_right hnew)
  · intro j hj
    rw [not_or] at hj
    rw [hself, hout j (by omega)]
    exact h.kept j hj.1

theorem Progress.more (hle : ∀ j, done j → done' j)
    (hsame : ∀ j, done' j → ¬done j → (w.files m.file).byteAt j = target j) : Progress w u m target done' :=
  ⟨h.toSettled, h.free, h.size, h.writable,
    fun j hj => by
      by_cases hd : done j
      · exact h.written j hd
      · rw [h.kept j hd]
        exact hsame j hj hd,
    fun j hj => h.kept j fun hd => hj (hle j hd)⟩

theorem Progress.rest (hr : Rest u v)
    (hfree : u.freePages ≤ v.freePages) : Progress w v m target done :=
  ⟨h.toSettled.trans hr.toSettled, h.free.trans hfree, by rw [hr.files]; exact h.size,
    by rw [hr.files]; exact h.writable, by rw [hr.files]; exact h.written, by rw [hr.files]; exact h.kept⟩

theorem Progress.part (o n addr : ℕ) (hrange : addr + n ≤ 2 ^ 32)
    (hfile : o + n ≤ (w.files m.file).size)
    (hbytes : ∀ i < n, u.byteAt w.current (addr + i) = some (target (o + i))) :
    ∃ v, (if n ≠ 0 then Mmap.fileWrite (u.seek m.file o) m.file n addr else some u) = some v ∧
      (∀ d a, v.byteAt d a = u.byteAt d a) ∧ Progress w v m target fun j => done j ∨ (o ≤ j ∧ j < o + n) := by
  by_cases h0 : n = 0
  · refine ⟨u, if_neg (not_not.2 h0), fun _ _ => rfl, h.more (fun _ => .inl) fun j hj hd => ?_⟩
    have := hj.resolve_left hd
    omega
  · obtain ⟨f, hf, hprog⟩ := h.fileWrite o n addr hrange hfile hbytes
    exact ⟨u.setFile m.file f, (if_pos h0).trans hf, fun _ _ => rfl, hprog⟩

end

theorem guardPage_unmapped (halign : addr % 4096 = 0) (hlt : addr < 2 ^ 32)
    (hnone : ∀ a, addr ≤ a → a < addr + 4096 → w.byteAt w.current a = none) :
    ∃ w', guardPageAt w addr = some w' ∧ Unmapped w w' addr 1 := by
  obtain ⟨w', hw', hun⟩ := guardPages_unmapped (w := w) (n := 1) halign (by omega) hnone
  refine ⟨w', ?_, hun⟩
  have hzero : Mm2.pageAddr addr 0 = addr + 0 * 4096 := pageAddr_of_lt (by omega)
  rw [Nat.zero_mul, Nat.add_zero] at hzero
  obtain ⟨u, hu, hw'⟩ := turns_succ hw'
  cases hu
  rw [hzero] at hw'
  exact hw'

/-- Memory while the whole pages are written back: the first `n` are not mapped any more. -/
structure PagesGone (w v : World) (m : Mmapping) (n : ℕ) : Prop where
  inside : ∀ a, m.pageAddr ≤ a → a < m.pageAddr + n * 4096 → v.byteAt m.pid a = none
  outside : ∀ a, (a < m.pageAddr ∨ m.pageAddr + n * 4096 ≤ a) → v.byteAt m.pid a = w.byteAt m.pid a

theorem PagesGone.next (h : PagesGone w u m n)
    (hun : Unmapped u v (m.pageAddr + n * 4096) 1) (hcur : u.current = m.pid) : PagesGone w v m (n + 1) := by
  obtain ⟨-, -, hin, hout⟩ := hun
  rw [hcur] at hin hout
  constructor
  · intro a hle hlt
    rw [Nat.succ_mul, ← Nat.add_assoc] at hlt
    by_cases hlast : m.pageAddr + n * 4096 ≤ a
    · exact hin a hlast (by omega)
    · rw [hout a (by omega)]
      exact h.inside a hle (by omega)
  · intro a ha
    rw [Nat.succ_mul, ← Nat.add_assoc] at ha
    rw [hout a (by omega)]
    exact h.outside a (by omega)

section

variable (h : Inv w m id view file)
include h

/-- **One page is written back** if it was touched; either way the file has its bytes then. -/
theorem flushPage_spec (hcur : w.current = m.pid) (hn : n < m.pages)
    (hbig : 4096 < m.size) (hu : Progress w u m (writtenBack m view file) done) (hgone : PagesGone w u m n) :
    ∃ v, flushPage m n u = some v ∧ PagesGone w v m (n + 1) ∧ Progress w v m (writtenBack m view file) fun j =>
        done j ∨ (m.pageOffset + n * 4096 ≤ j ∧ j < m.pageOffset + n * 4096 + 4096) := by
  obtain ⟨hcont, hcover, hwhole, hpre, hpost, hfits⟩ := h.sound.split
  have hofs := h.sound.pageOffset
  have hin := h.inFile
  have hpages : m.pages * 4096 = (m.pages - n - 1) * 4096 + n * 4096 + 4096 := by
    rw [← Nat.add_mul, ← Nat.succ_mul]
    congr 1
    omega
  have hucur : u.current = m.pid := hu.current.trans hcur
  have haddr : Mm2.pageAddr m.pageAddr n = m.pageAddr + n * 4096 := pageAddr_of_lt (by omega)
  have halign : (m.pageAddr + n * 4096) % 4096 = 0 := by omega
  unfold flushPage
  simp only [haddr, hucur]
  cases hm : isMapped u m.pid (m.pageAddr + n * 4096) with
  | true =>
    -- the bytes of the page are those that are seen
    have hbytes : ∀ i < 4096, u.byteAt w.current (m.pageAddr + n * 4096 + i) =
        some (writtenBack m view file (m.pageOffset + n * 4096 + i)) := by
      intro i hi
      have hsame := hgone.outside (m.pageAddr + n * 4096 + i) (by omega)
      have hmapped : isMapped w m.pid (m.addr + (m.pre + n * 4096 + i)) = true := by
        rw [show m.addr + (m.pre + n * 4096 + i) = m.pageAddr + n * 4096 + i by omega, isMapped, ← hsame]
        exact (isMapped_page (by omega)).trans hm
      have hbyte := h.byteAt_eq (by omega) hmapped
      rw [hcur, hsame, show m.pageAddr + n * 4096 + i = m.addr + (m.pre + n * 4096 + i) by omega, hbyte,
        show m.pageOffset + n * 4096 + i = m.offset + (m.pre + n * 4096 + i) by omega,
        writtenBack_of_lt (by omega)]
    obtain ⟨f, hf, hprog⟩ := hu.fileWrite (m.pageOffset + n * 4096) 4096 _ (by omega) (by omega)
      hbytes
    have hfree := freePages_unmapped (u.setFile m.file f) (n := 1) halign (by omega)
    obtain ⟨v, hv, hguard⟩ := guardPage_unmapped (w := freePages (u.setFile m.file f)
      (m.pageAddr + n * 4096) 1) halign (by omega) fun a hle hlt => by
        rw [hfree.rest.current]
        exact hfree.inside a hle (by omega)
    refine ⟨v, ?_, ?_, (hprog.rest hfree.rest hfree.free).rest hguard.rest hguard.free⟩
    · rw [if_pos rfl, pageSize, hf, map_some, bind_some]
      exact hv
    · have hsame : PagesGone w (u.setFile m.file f) m n := ⟨hgone.inside, hgone.outside⟩
      refine hsame.next (hfree.trans hguard) ?_
      exact hucur
  | false =>
    have hnone : ∀ a, m.pageAddr + n * 4096 ≤ a → a < m.pageAddr + n * 4096 + 4096 →
        u.byteAt m.pid a = none := by
      intro a hle hlt
      exact byteAt_of_not_mapped ((isMapped_page (by omega)).trans hm)
    obtain ⟨v, hv, hguard⟩ := guardPage_unmapped (w := u) halign (by omega)
      (by rw [hucur]; exact hnone)
    refine ⟨v, ?_, hgone.next hguard hucur, ?_⟩
    · rw [if_neg Bool.false_ne_true, bind_some]
      exact hv
    · -- the page was never touched, so the file has what is seen
      refine (hu.more (fun _ => .inl) ?_).rest hguard.rest hguard.free
      intro j hj hd
      obtain ⟨hlo, hhi⟩ := hj.resolve_left hd
      have ha := hnone (m.addr + (j - m.offset)) (by omega) (by omega)
      rw [hgone.outside _ (by omega)] at ha
      have hsees := h.shows (j - m.offset) (by omega)
      rw [sees_of_unmapped ha, Nat.add_sub_cancel_left, show m.offset + (j - m.offset) = j by omega]
        at hsees
      rw [hsees, writtenBack, if_pos (by omega)]

/-- **The loop over the whole pages.** -/
theorem flushPages_spec (hcur : w.current = m.pid) (hbig : 4096 < m.size)
    (hu : Progress w u m (writtenBack m view file) done) (hsame : ∀ a, u.byteAt m.pid a = w.byteAt m.pid a)
    (n : ℕ) (hn : n ≤ m.pages) : ∃ v, turns (flushPage m) n u = some v ∧ PagesGone w v m n ∧
      Progress w v m (writtenBack m view file) fun j =>
        done j ∨ (m.pageOffset ≤ j ∧ j < m.pageOffset + n * 4096) := by
  induction n with
  | zero =>
    refine ⟨u, rfl, ⟨fun a _ _ => by omega, fun a _ => hsame a⟩, ?_⟩
    refine hu.more (fun _ => .inl) fun j hj hd => ?_
    have := hj.resolve_left hd
    omega
  | succ n ih =>
    obtain ⟨v, hv, hgone, hprog⟩ := ih (by omega)
    obtain ⟨x, hx, hgone', hprog'⟩ := flushPage_spec h hcur hn hbig hprog hgone
    refine ⟨x, ?_, hgone', ?_⟩
    · rw [turns, hv, bind_some]
      exact hx
    · refine hprog'.more ?_ ?_
      · rintro j ((hj | hj) | hj)
        · exact .inl hj
        · exact .inr ⟨hj.1, by rw [Nat.succ_mul]; omega⟩
        · exact .inr ⟨by omega, by rw [Nat.succ_mul]; omega⟩
      · intro j hj hd
        rw [Nat.succ_mul, ← Nat.add_assoc] at hj
        rw [not_or, not_or] at hd
        have hj' := hj.resolve_left hd.1.1
        omega

theorem Inv.after_flush (hprog : Progress w v m (writtenBack m view file) done)
    (hdone : ∀ j, m.offset ≤ j → j < m.offset + m.size → done j)
    (hbyte : ∀ a, ¬m.InPages a → v.byteAt m.pid a = w.byteAt m.pid a)
    (hgone : ∀ a, m.InPages a → v.byteAt m.pid a = none) : Inv v m id view (writtenBack m view file) := by
  have hholds : (v.files m.file).byteAt = writtenBack m view file := by
    funext j
    by_cases hd : done j
    · exact hprog.written j hd
    · rw [hprog.kept j hd, h.holds, writtenBack_of_out]
      by_contra hin
      exact hd (hdone j (by omega) (by omega))
  refine h.step hprog.regions hprog.mmappings hprog.size ?_ ?_ hholds
  · intro a hout hmapped
    rw [isMapped, hbyte a hout]
    exact hmapped
  · intro k hk
    by_cases hin : m.InPages (m.addr + k)
    · rw [sees_of_unmapped (hgone _ hin), hholds, Nat.add_sub_cancel_left, writtenBack_of_lt hk]
    · have hmapped := h.resident _ (Nat.le_add_right _ _) (by omega) hin
      refine sees_of_byteAt ?_
      rw [hbyte _ hin]
      exact h.byteAt_eq hk hmapped

/-- **The writes of `flush_mapping`.** -/
theorem Inv.flushWrites (hcur : w.current = m.pid) :
    ∃ v, flushWrites w m = some v ∧ Inv v m id view (writtenBack m view file) ∧
      v.live = w.live ∧ v.current = w.current ∧ w.freePages ≤ v.freePages ∧
      (v.files m.file).writable = (w.files m.file).writable := by
  obtain ⟨hcont, hcover, hwhole, hpre, hpost, hfits⟩ := h.sound.split
  have hin := h.inFile
  have hofs := h.sound.pageOffset
  have hstart := Progress.start w m (writtenBack m view file)
  -- the bytes of a part that is not in the whole pages
  have hpart : ∀ k i, k + i < m.size → ¬m.InPages (m.addr + (k + i)) →
      w.byteAt w.current (m.addr + k + i) = some (writtenBack m view file (m.offset + k + i)) := by
    intro k i hk hout
    rw [hcur, Nat.add_assoc, Nat.add_assoc, writtenBack_of_lt hk]
    exact h.byteAt_eq hk (h.resident _ (Nat.le_add_right _ _) (by omega) hout)
  unfold Mmap.flushWrites
  by_cases hsmall : m.size ≤ pageSize
  · have hout : ∀ a, ¬m.InPages a := fun a ha => Nat.not_lt.2 hsmall ha.1
    obtain ⟨f, hf, hprog⟩ := hstart.fileWrite m.offset m.size m.addr hfits hin
      fun i hi => by simpa using hpart 0 i (by omega) (hout _)
    rw [if_pos hsmall]
    refine ⟨_, hf, h.after_flush hprog (fun j hlo hhi => .inr ⟨hlo, hhi⟩) (fun _ _ => rfl)
      fun a ha => absurd ha (hout a), hprog.live, hprog.current, hprog.free,
      hprog.writable⟩
  · have hbig : 4096 < m.size := Nat.not_le.1 hsmall
    have hend := h.sound.pageEnd hbig
    have hpostAddr := h.sound.postAddr hbig
    have hpostOffset := h.sound.postOffset
    obtain ⟨u, hu, husame, huprog⟩ := hstart.part m.offset m.pre m.addr (by omega) (by omega)
      fun i hi => by
        refine hpart 0 i (by omega) ?_
        rintro ⟨-, hle, -⟩
        omega
    obtain ⟨v, hv, hvsame, hvprog⟩ := huprog.part m.postOffset m.post m.postAddr
      (by rw [hpostAddr]; omega) (by rw [hpostOffset]; omega) fun i hi => by
        rw [husame, hpostAddr, hpostOffset]
        refine hpart _ i (by omega) ?_
        rintro ⟨-, -, hlt⟩
        omega
    obtain ⟨x, hx, hgone, hxprog⟩ := flushPages_spec h hcur hbig hvprog
      (fun a => (hvsame _ a).trans (husame _ a)) m.pages (Nat.le_refl _)
    rw [if_neg hsmall, hu, bind_some, hv, bind_some]
    refine ⟨x, hx, h.after_flush hxprog ?_ ?_ ?_, hxprog.live, hxprog.current, hxprog.free, hxprog.writable⟩
    · intro j hlo hhi
      by_cases hjpre : j < m.offset + m.pre
      · exact .inl (.inl (.inr ⟨hlo, hjpre⟩))
      · by_cases hjpost : m.postOffset ≤ j
        · exact .inl (.inr ⟨hjpost, by omega⟩)
        · exact .inr ⟨by omega, by omega⟩
    · intro a ha
      refine hgone.outside a ?_
      by_contra hin
      exact ha ⟨hbig, by omega, by omega⟩
    · intro a ha
      exact hgone.inside a ha.2.1 ha.2.2

/-- **`flush_mapping`** writes back what is seen, if the file can be written, and nothing else. -/
theorem Inv.flushed (hw : flushMapping w m = some w') :
    Inv w' m id view (if (w.files m.file).writable then writtenBack m view file else file) ∧
      w'.current = w.current ∧ w'.live = w.live ∧ (w'.files m.file).writable = (w.files m.file).writable := by
  unfold flushMapping at hw
  split at hw
  · rename_i hwritable
    obtain ⟨x, hx, hw⟩ := bind_eq_some_iff.1 hw
    obtain ⟨y, hy, hw⟩ := bind_eq_some_iff.1 hw
    obtain ⟨-, rfl⟩ := of_switchProcess hx
    -- the process of the mapping sees what it saw
    obtain ⟨v, hv, hinv, hlive, -, -, hwr⟩ := (h.switched m.pid).flushWrites rfl
    cases hv.symm.trans hy
    obtain ⟨-, rfl⟩ := of_switchProcess hw
    have hmode := congrArg writable (update_self m.file ((y.files m.file).seek (w.files m.file).pos) y.files)
    rw [if_pos hwritable]
    exact ⟨(hinv.seek _).switched w.current, rfl, hlive, hmode.trans hwr⟩
  · rename_i hro
    cases hw
    rw [if_neg hro]
    exact ⟨h, rfl, rfl, rfl⟩

/-- **`flush_mapping` returns** while the process of the mapping and the current one exist, and takes no
physical page. -/
theorem Inv.flush_returns (hpid : w.live m.pid = true) (hcur : w.live w.current = true) :
    ∃ w', flushMapping w m = some w' ∧ w.freePages ≤ w'.freePages := by
  unfold flushMapping
  simp only
  split
  · obtain ⟨v, hv, -, hlive, -, hfree, -⟩ := (h.switched m.pid).flushWrites rfl
    have hback : (v.seek m.file (w.files m.file).pos).live w.current = true := by
      show v.live w.current = true
      rw [hlive]
      exact hcur
    have hfirst : switchProcess w m.pid = some { w with current := m.pid } := if_pos hpid
    rw [hfirst, bind_some, hv, bind_some]
    exact ⟨_, if_pos hback, hfree⟩
  · exact ⟨w, rfl, Nat.le_refl _⟩

end

theorem restorePages_files (h : turns (restorePage m) n w = some w') :
    w'.files = w.files ∧ w'.live = w.live := by
  refine turns_invariant (fun _ u => u.files = w.files ∧ u.live = w.live) ⟨rfl, rfl⟩ n ?_ h
  rintro i - u v - ⟨hfiles, hlive⟩ hv
  unfold restorePage mapPageAt at hv
  simp only at hv
  split at hv
  · cases hv
    exact ⟨hfiles, hlive⟩
  · split at hv
    · cases hv
    · cases hv
      exact ⟨hfiles, hlive⟩

theorem restorePages_returns (m : Mmapping) (hn : n ≤ w.freePages) :
    ∃ w', turns (restorePage m) n w = some w' ∧ w.freePages ≤ w'.freePages + n := by
  induction n with
  | zero => exact ⟨w, rfl, Nat.le_refl _⟩
  | succ n ih =>
    obtain ⟨u, hu, hfree⟩ := ih (by omega)
    rw [turns, hu, bind_some, restorePage]
    split
    · exact ⟨u, rfl, by omega⟩
    · refine ⟨_, if_neg (by omega), ?_⟩
      show w.freePages ≤ u.freePages - 1 + (n + 1)
      omega

/-- **`mm2_closemap`** writes back what is seen, if the file can be written, and nothing else. -/
theorem Inv.closed (h : Inv w m id view file) (hw : mm2Closemap w id = some w') : (w'.files m.file).byteAt =
      if (w.files m.file).writable then writtenBack m view file else file := by
  simp only [mm2Closemap, h.lookup] at hw
  obtain ⟨x, hx, hflush⟩ := bind_eq_some_iff.1 hw
  obtain ⟨y, hy, hrestore⟩ := bind_eq_some_iff.1 hflush
  obtain ⟨z, hz, hback⟩ := bind_eq_some_iff.1 hrestore
  obtain ⟨-, rfl⟩ := of_switchProcess hx
  obtain ⟨-, rfl⟩ := of_switchProcess hback
  have hflushed := ((h.switched m.pid).flushed hy).1.holds
  have hfiles : z.files = y.files := by
    split at hz
    · obtain ⟨u, hu, rfl⟩ := map_eq_some_iff.1 hz
      exact (restorePages_files hu).1
    · cases hz
      rfl
  rw [← hflushed, ← hfiles]

/-- **`mm2_closemap` returns** while the process of the mapping and the current one exist and there are
physical pages for the whole pages. -/
theorem Inv.close_returns (h : Inv w m id view file) (hpid : w.live m.pid = true)
    (hcur : w.live w.current = true) (hfree : m.pages ≤ w.freePages) : ∃ w', mm2Closemap w id = some w' := by
  have hswitch := h.switched m.pid
  obtain ⟨x, hx, hxfree⟩ := hswitch.flush_returns hpid hpid
  have hxlive := (hswitch.flushed hx).2.2.1
  have hfirst : switchProcess w m.pid = some { w with current := m.pid } := if_pos hpid
  have hrestore : ∃ y, (if pageSize < m.size then (turns (restorePage m) m.pages x).map fun w =>
      removeRegion w (m.regionDir w.current) m.pageAddr else some x) = some y ∧ y.live = w.live := by
    split
    · obtain ⟨y, hy, -⟩ := restorePages_returns m (hfree.trans hxfree)
      rw [hy]
      exact ⟨_, rfl, (restorePages_files hy).2.trans hxlive⟩
    · exact ⟨x, rfl, hxlive⟩
  obtain ⟨y, hy, hylive⟩ := hrestore
  have hback : y.live w.current = true := by
    rw [hylive]
    exact hcur
  simp only [mm2Closemap, h.lookup, hfirst, bind_some, hx, hy]
  exact ⟨_, if_pos hback⟩

end Flush

end Btos.Kernel.Mm2.Mmap
