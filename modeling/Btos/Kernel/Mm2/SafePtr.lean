import Btos.Kernel.Mm2.PtrWalk
import Btos.Kernel.Mm2.Boot

/-!
# The pointer check

`is_safe_ptr` of `kernel/user_api.cpp` in a state with sound tables.  It steps through the range by what
`resolve_addr` returns, the offset of the address in its page or a whole page; addresses have 32 bits.

* `isSafePtr_checks_iff` — **the pointers and sizes for which the check is right in every state** are
  those whose steps come to the page of the last byte, and empty ranges in user space.
-/

namespace Btos.Kernel.Mm2

open Lib.Word Option

/-! ### What the check is for -/

/-- Every byte of the range is in user space and mapped. -/
def AllMapped (s : State) (pid : Pid) (ptr size : ℕ) : Prop :=
  ∀ i < size, kernelBoundary ≤ ptr + i ∧ ptr + i < 2 ^ 32 ∧ MappedAt s pid ((ptr + i) / 4096)

/-- The check is right: a range that passes is mapped when the check returns, and a range that is
mapped passes. -/
structure Checks (s : State) (ptr size : ℕ) (pid : Pid) : Prop where
  sound : ∀ s', isSafePtr s ptr size pid = some (true, s') → AllMapped s' pid ptr size
  complete : AllMapped s pid ptr size → ∃ s', isSafePtr s ptr size pid = some (true, s')

/-- The states that are considered: sound page tables, an existing process, no page at address 0 and
no region there. -/
structure Sane (s : State) (pid : Pid) : Prop where
  tables : Tables s
  live : s.live pid = true
  spaces : SpacesOk s
  null : ¬MappedAt s s.current 0
  regions : ∀ r ∈ (s.dirs pid).regions, 4096 ≤ r.addr

/-- The steps come to the page of the last byte, or the range goes on for more than a page past the
top of the address space, so that they come to the null page. -/
def Covers (ptr size : ℕ) : Prop := walkCovers 12 (ptr % 4096) size = true ∨ 2 ^ 20 < (ptr + size - 1) / 4096

instance (ptr size : ℕ) : Decidable (Covers ptr size) := inferInstanceAs (Decidable (_ ∨ _))

/-! ### The check with its switches -/

theorem switchProcess_of_live (h : s.live pid = true) : (switchProcess s pid).2 = mm2Switch s pid := by
  rw [switchProcess, if_pos h]

theorem Sane.switched (h : Sane s pid) :
    Spread s (mm2Switch s pid) ∧ Tables (mm2Switch s pid) ∧ SpacesOk (mm2Switch s pid) ∧
      ¬MappedAt (mm2Switch s pid) pid 0 ∧ ∀ r ∈ ((mm2Switch s pid).dirs pid).regions, 4096 ≤ r.addr := by
  have hs := mm2Switch_spread h.tables h.live
  have hcur := mm2Switch_current s pid
  refine ⟨hs, hs.tables h.tables, ?_, ?_, ?_⟩
  · rw [hs.rest]
    exact h.spaces
  · have hw := hs.copied (0 / 1024) (by decide)
    rw [hcur] at hw
    rw [MappedAt, hs.stored_of_word_eq hw]
    exact h.null
  · rw [hs.regions]
    exact h.regions

theorem page_step (h : n ≤ stride a) : (a + n - 1) / 4096 ≤ a / 4096 + 1 := by
  unfold stride at h
  split at h <;> omega

theorem isSafePtr_sound (h : Sane s pid) (hptr : ptr < 2 ^ 32) (hc : Covers ptr size)
    (hret : isSafePtr s ptr size pid = some (true, s')) : AllMapped s' pid ptr size := by
  unfold isSafePtr at hret
  split at hret
  · rename_i hb
    obtain ⟨⟨ok, y⟩, hy, heq⟩ := map_eq_some_iff.1 hret
    obtain ⟨rfl, rfl⟩ := Prod.mk.inj heq
    rw [switchProcess_of_live h.live] at hy
    obtain ⟨hs, htx, hsp, hnull, hreg⟩ := h.switched
    have hcur := mm2Switch_current s pid
    generalize mm2Switch s pid = x at hy hs htx hsp hnull hreg hcur
    subst hcur
    obtain ⟨hext, hall⟩ := safeLoop_sound hb _ 0 x y htx hsp hnull hreg (by omega) hy
    have hlive : y.live s.current = true := by
      rw [hext.live, hs.live]
      exact h.tables.live_current
    rw [switchProcess_of_live hlive]
    have hback := mm2Switch_spread hext.tables hlive
    intro i hi
    rw [kernelBoundary] at hb ⊢
    rcases hc with hc | hfar
    · obtain ⟨j, hj, hjs, hpage⟩ : ∃ j, Visits ptr size 0 j ∧ j < size ∧ (ptr + i) / 4096 = (ptr + j) / 4096 :=
        exists_visits_page size (by omega) (alignsIn_twelve _) hc i (Nat.zero_le i) hi
      obtain ⟨htop, hm⟩ := hall j hj hjs
      refine ⟨by omega, by omega, ?_⟩
      rw [MappedAt, hback.stored_user _ (by rw [kernelPages]; omega), hpage]
      exact hm
    · -- the last step would have come to the null page
      obtain ⟨j, hj, hjs, hlast⟩ : ∃ j, Visits ptr size 0 j ∧ j < size ∧
          size ≤ j + stride (ptr + j) := exists_visits_last size (by omega) (by omega)
      have htop := (hall j hj hjs).1
      have hstep := page_step (a := ptr + j) (n := size - j) (by omega)
      omega
  · cases hret

theorem isSafePtr_of_visits (h : Sane s pid) (hb : kernelBoundary ≤ ptr) (hsize : size < 2 ^ 32)
    (hvis : ∀ j, Visits ptr size 0 j → j < size → ptr + j < 2 ^ 32 ∧ MappedAt s pid ((ptr + j) / 4096)) :
    ∃ s', isSafePtr s ptr size pid = some (true, s') ∧
      ∀ idx, kernelPages ≤ idx → idx < 2 ^ 20 → (MappedAt s' pid idx ↔ MappedAt s pid idx) := by
  obtain ⟨hs, htx, -, -, -⟩ := h.switched
  have hcur := mm2Switch_current s pid
  have hx := switchProcess_of_live h.live
  generalize mm2Switch s pid = x at hs htx hcur hx
  subst hcur
  have hmapped : ∀ j, Visits ptr size 0 j → j < size →
      ptr + j < 2 ^ 32 ∧ MappedAt x x.current ((ptr + j) / 4096) := by
    intro j hj hjlt
    obtain ⟨htop, hm⟩ := hvis j hj hjlt
    rw [kernelBoundary] at hb
    refine ⟨htop, ?_⟩
    rw [MappedAt, hs.stored_user _ (by rw [kernelPages]; omega)]
    exact hm
  obtain ⟨y, hy, hty, ha⟩ := safeLoop_complete hb (2 ^ 32 + 1) 0 x htx (by omega) hmapped
  have hlive : y.live s.current = true := by
    rw [ha.kept.live, hs.live]
    exact h.tables.live_current
  have hback := mm2Switch_spread hty hlive
  refine ⟨mm2Switch y s.current, ?_, ?_⟩
  · rw [isSafePtr, if_pos hb, hx, hy]
    show some (true, (switchProcess y s.current).2) = _
    rw [switchProcess_of_live hlive]
  · intro idx hu hidx
    rw [MappedAt, MappedAt, hback.stored_user _ hu, ha.stored _ _ htx.live_current hidx
      (htx.ne_frame hu), hs.stored_user _ hu]

theorem isSafePtr_complete (h : Sane s pid) (hsize : size < 2 ^ 32) (hb : size = 0 → kernelBoundary ≤ ptr)
    (hall : AllMapped s pid ptr size) : ∃ s', isSafePtr s ptr size pid = some (true, s') := by
  have hb' : kernelBoundary ≤ ptr := by
    by_cases h0 : size = 0
    · exact hb h0
    · exact (hall 0 (by omega)).1
  obtain ⟨s', hs', -⟩ := isSafePtr_of_visits h hb' hsize fun j _ hj => (hall j hj).2
  exact ⟨s', hs'⟩

/-! ### A state with one hole -/

/-- The entry of a page in a directory where all pages are mapped but page 0 and `hole`. -/
def denseEntry (hole idx : ℕ) : ℕ :=
  if idx = 0 then PageFlag.guardPage else if idx = hole then 0 else 0x500007

/-- The table of number `t` is at page `t + 1`. -/
def denseTable (t : ℕ) : ℕ := (t + 1) * 4096

/-- One process, whose pages are all mapped but page 0 and `hole`. -/
def dense (hole : ℕ) : State where
  frames f j := denseEntry hole ((f / 4096 - 1) * 1024 + j)
  physical := ⟨[], ⟨by decide, by decide, by decide⟩, [], 0, 0⟩
  dirs _ := {
    directory := fun t => if t < 1024 then denseTable t ||| userFlags else 0
    directoryPtr := 0
    directoryPhysical := 0
    currentTable := 0
    klowfree := 0
    ulowfree := kernelPages
    upages := 0
    entrycache := List.replicate 64 ⟨0, 0, 0⟩
    regions := [] }
  live d := d == 0
  current := 0
  tableFrame := 1
  kpages := 0
  schedulerReady := true
  spaces := []
  spaceIdCounter := 0
  mappings := []
  mappingIdCounter := 0
  mmappings := []
  shmAllowed _ _ := false

theorem dense_word (hole : ℕ) (d : Pid) (ht : t < 1024) :
    (dense hole).tableWord d t = denseTable t ||| userFlags := if_pos ht

theorem denseTable_ok (ht : t < 1024) : addressOf (denseTable t ||| userFlags) = denseTable t ∧
      present (denseTable t ||| userFlags) = true := by
  have hal : denseTable t % 4096 = 0 := Nat.mul_mod_left _ _
  have hlt : denseTable t < 2 ^ 32 := by
    rw [denseTable]
    omega
  exact ⟨addressOf_or hal hlt userFlags_present.1, userFlags_present.present hal⟩

theorem dense_stored (hole : ℕ) (d : Pid) (hidx : idx < 2 ^ 20) :
    storedEntry (dense hole) d idx = denseEntry hole idx := by
  have ht : idx / 1024 < 1024 := by omega
  rw [storedEntry, dense_word hole d ht, (denseTable_ok ht).1, if_neg (by rw [denseTable]; omega)]
  show denseEntry hole ((denseTable (idx / 1024) / 4096 - 1) * 1024 + idx % 1024) = _
  congr 1
  rw [denseTable]
  omega

theorem dense_tables (hh : 1 < hole) : Tables (dense hole) := by
  have hword : ∀ d t, t < 1024 → (dense hole).tableWord d t ≠ 0 := by
    intro d t ht
    rw [dense_word hole d ht]
    exact ne_zero_of_present (denseTable_ok ht).2
  refine ⟨show 1 < kernelPages by decide, show 0 < 1 by decide, rfl, hword 0 (1 / 1024) (by decide),
    ?_, fun _ _ _ _ _ => rfl, ?_, ?_, ?_, ?_, ?_, ?_⟩
  · intro d t _ ht _
    rw [dense_word hole d ht, (denseTable_ok ht).1]
    refine ⟨(denseTable_ok ht).2, ?_⟩
    rw [denseTable]
    omega
  · intro d d' t t' hd hd' ht ht' _ _ haddr
    rw [dense_word hole d ht, dense_word hole d' ht', (denseTable_ok ht).1, (denseTable_ok ht').1,
      denseTable, denseTable] at haddr
    exact ⟨by omega, .inl ((beq_iff_eq.1 hd).trans (beq_iff_eq.1 hd').symm)⟩
  · rintro d t - - - ⟨pg, hpg, -⟩
    cases hpg
  · intro d idx _ hidx _
    rw [dense_stored hole d hidx, denseEntry]
    split
    · exact .inr (.inr rfl)
    · split
      · exact .inl rfl
      · exact .inr (.inl rfl)
  · have hstored := dense_stored hole 0 (show 1 < 2 ^ 20 by decide)
    rw [storedEntry, dense_word hole 0 (by decide), (denseTable_ok (by decide)).1,
      if_neg (by decide), denseEntry, if_neg (by decide), if_neg (by omega)] at hstored
    show present ((dense hole).frames (addressOf ((dense hole).tableWord 0 (1 / 1024)))
      (1 % 1024)) = true
    rw [dense_word hole 0 (by decide), (denseTable_ok (by decide)).1, hstored]
    rfl
  · intro d _ c hc he
    rw [List.eq_of_mem_replicate hc] at he
    exact absurd rfl he
  · rw [dense_stored hole _ (by decide), denseEntry, if_pos rfl]
    decide

theorem dense_sane (hh : 1 < hole) : Sane (dense hole) 0 where
  tables := dense_tables hh
  live := rfl
  spaces p hp := nomatch hp
  null := by
    rw [MappedAt, dense_stored hole _ (by decide), denseEntry, if_pos rfl]
    exact fun h => h (by decide)
  regions r hr := nomatch hr

theorem dense_mapped (hidx : idx < 2 ^ 20) (h0 : idx ≠ 0) : MappedAt (dense hole) 0 idx ↔ idx ≠ hole := by
  rw [MappedAt, dense_stored hole 0 hidx, denseEntry, if_neg h0]
  by_cases hh : idx = hole
  · simp [hh, addressOf]
  · rw [if_neg hh]
    exact ⟨fun _ => hh, fun _ => by decide⟩

theorem dense_not_checks (hsize : size < 2 ^ 32) (hb : kernelBoundary ≤ ptr)
    (hc : ¬Covers ptr size) : ¬Checks (dense ((ptr + size - 1) / 4096)) ptr size 0 := by
  obtain ⟨hc, hnear⟩ := not_or.1 hc
  have hc := eq_false_of_ne_true hc
  have hpos : 0 < size := by
    refine Nat.pos_of_ne_zero fun h0 => ?_
    rw [h0, walkCovers_empty 12 (Nat.mod_lt _ (by decide))] at hc
    cases hc
  have hsane : Sane (dense ((ptr + size - 1) / 4096)) 0 := by
    refine dense_sane ?_
    rw [kernelBoundary] at hb
    omega
  obtain ⟨s', hs', hsame⟩ := isSafePtr_of_visits hsane hb hsize (by
    intro j hj hjlt
    have hlt := Visits.before_last 12 (alignsIn_twelve _) hc hpos hj hjlt
    rw [kernelBoundary] at hb
    exact ⟨by omega, (dense_mapped (by omega) (by omega)).2 (Nat.ne_of_lt hlt)⟩)
  intro hchecks
  obtain ⟨-, htop, hm⟩ := hchecks.sound s' hs' (size - 1) (by omega)
  rw [kernelBoundary] at hb
  rw [show ptr + (size - 1) = ptr + size - 1 by omega] at htop hm
  rw [hsame _ (by rw [kernelPages]; omega) (by omega), dense_mapped (by omega) (by omega)] at hm
  exact hm rfl

/-- **The pointers and sizes for which the check is right in every state.** -/
theorem isSafePtr_checks_iff (ptr size : Word32) : (∀ s pid, Sane s pid → Checks s ptr size pid) ↔
      (size.1 = 0 → kernelBoundary ≤ ptr) ∧ (kernelBoundary ≤ ptr.1 → Covers ptr size) := by
  constructor
  · intro h
    refine ⟨fun h0 => ?_, fun hb => ?_⟩
    · -- an empty range has to pass, so it has to be in user space
      obtain ⟨s', hs'⟩ := (h (dense 2) 0 (dense_sane (by decide))).complete (by
        intro i hi
        exact absurd hi (by omega))
      by_contra hb
      rw [isSafePtr, if_neg hb] at hs'
      cases hs'
    · by_contra hc
      refine dense_not_checks size.2 hb hc (h _ 0 (dense_sane ?_))
      rw [kernelBoundary] at hb
      omega
  · rintro ⟨h0, hc⟩ s pid hs
    refine ⟨fun s' hret => ?_, isSafePtr_complete hs size.2 h0⟩
    have hb : kernelBoundary ≤ ptr.1 := by
      by_contra hb
      rw [isSafePtr, if_neg hb] at hret
      cases hret
    exact isSafePtr_sound hs ptr.2 (hc hb) hret

/-- The last byte of a page and the first of the next, which is not mapped. -/
theorem isSafePtr_over : Sane (dense 0x40001) 0 ∧ ¬Checks (dense 0x40001) 0x40000FFF 2 0 := by
  refine ⟨dense_sane (by decide), fun h => ?_⟩
  have hrun : ((isSafePtr (dense 0x40001) 0x40000FFF 2 0).map fun r =>
      r.1 && !decide (MappedAt r.2 0 0x40001)) = some true := by decide +kernel
  obtain ⟨⟨ok, s'⟩, hs', hr⟩ := map_eq_some_iff.1 hrun
  simp only [Bool.and_eq_true, Bool.not_eq_true', decide_eq_false_iff_not] at hr
  obtain ⟨rfl, hn⟩ := hr
  exact hn (h.sound s' hs' 1 (by decide)).2.2

end Btos.Kernel.Mm2
