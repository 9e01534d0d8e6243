import Btos.Kernel.Mm2.EntryCache
import Btos.Kernel.Mm2.Frames

/-!
# The operations of a directory and the use of physical pages

For each operation of `DirOp`, that it keeps `Owned`.  `PageOk` is the condition: what is unmapped is not a page of
shared memory, and what is mapped is in no other use.  The destructor is in `Btos.Kernel.Mm2.FrameDestroy`.

* `dirStep_owned` — **each operation of a directory keeps the pages as they should be**.
-/

namespace Btos.Kernel.Mm2

open Lib.Word Lib.Loop Lib.Ownership Function Option

/-! ### Switching and creating directories -/

/-- **Switching**: the kernel half is one set of references for all directories. -/
theorem Spread.owned (h : Spread s s') (ht : Tables s) (ho : Owned s) : Owned s' := by
  refine ⟨?_, (h.sourced ht).sound ho.sound ((h.sourced ht).maps h.frames)
    (fun f hf => .inl (h.physical ▸ hf)) ?_ ?_, ?_⟩
  · rw [h.isTable ht, h.window ht]
    exact ho.shows
  · intro a f
    rw [InSpace, InSpace, h.rest]
  · intro p a
    show (∃ x ∈ s.mappings, _) → ∃ x ∈ s'.mappings, _
    rw [h.rest]
    exact id
  · refine ho.books.congr h.live h.regions ?_ ?_ ?_ ?_ <;> rw [h.rest]

/-- **A new directory** maps nothing. -/
theorem addDirectory_owned (ht : Tables s)
    (hpid : s.live pid = false) (hdir : ∀ t, x.directory t = 0) (hreg : x.regions = [])
    (ho : Owned s) : Owned (addDirectory s pid x) := by
  have hne : ∀ {d}, s.live d = true → d ≠ pid := by
    rintro d hd rfl
    rw [hpid] at hd
    cases hd
  have hsource := addDirectory_sourced ht hpid hdir
  refine ⟨?_, hsource.sound ho.sound (hsource.maps rfl) (fun _ => .inl) (fun _ _ => Iff.rfl) (fun _ _ => id), ?_⟩
  · obtain ⟨d, t, hd, htlt, hw, hf⟩ := ho.shows
    have hold : (addDirectory s pid x).tableWord d t = s.tableWord d t := by
      rw [State.tableWord, addDirectory_dirs s x (hne hd)]
      rfl
    refine ⟨d, t, (update_of_ne (hne hd) _ _).trans hd, htlt, by rw [hold]; exact hw, ?_⟩
    rw [hold, hf, State.window, State.window, hsource.windowTable ht]
    rfl
  · refine ho.books.sub ((update_of_ne (hne ho.books.kernel_live) _ _).trans ho.books.kernel_live) ?_
      (fun _ => id) (fun _ => id) rfl rfl
    intro d hd r hr
    by_cases hdne : d = pid
    · subst hdne
      have hr' : r ∈ ((s.setDir d x).dirs d).regions := hr
      rw [setDir_self, hreg] at hr'
      exact absurd hr' List.not_mem_nil
    · rw [addDirectory_dirs s x hdne] at hr
      exact ⟨addDirectory_live hd hdne, hr⟩

/-! ### Allocating and freeing -/

section

variable {s s' : State}

section

variable (ht : Tables s)
include ht

/-- **`alloc`.** -/
theorem alloc_owned (ho : Owned s) (h : alloc s pages mode = some (a, s')) : Owned s' := by
  obtain ⟨first, x, hs, hcase⟩ := alloc_cases ht h
  have hox := hs.alike.owned ht (fun g hg => by rw [← hs.physical]; exact hg) ho
  rcases hcase with ⟨-, -, rfl⟩ | ⟨h0, -, hloop⟩
  · exact hox
  · have hb := hs.bound h0
    rw [totalPages] at hb
    refine (alloc_rule (fun _ u => Owned u) hs.tables hox (hs.bound h0) ?_ ?_ hloop).2
    · intro j hj
      exact (hs.alike.empty ht (by omega)).2 (hs.empty h0 j hj)
    · intro i _ u v f _ hu _ _ hnew
      exact hnew.owned userFlags_present.1 hu

/-- **`free_pages`.** -/
theorem freePages_owned (ho : Owned s)
    (hok : ∀ i < pages, ∀ u, turns (freeTurn addr) i s = some u →
      FreeTurnOk u (pageAddr addr i / 4096) ∧ NotShared u (pageAddr addr i / 4096))
    (h : freePages s addr pages = some s') : Tables s' ∧ Owned s' ∧ Kept s s' := by
  refine free_rule (fun _ u => Owned u ∧ Kept s u) ht ⟨ho, Kept.refl s⟩
    (fun i hi u hu _ _ => (hok i hi u hu).1) ?_ h
  intro i hi u v hu htu hou _ hrep
  obtain ⟨hfree, hns⟩ := hok i hi u hu
  have hlt := pageAddr_lt addr i
  exact ⟨hrep.owned rfl htu (by omega) hfree.not_window hns hou.1.sound hou.1.books,
    hou.2.trans hrep.written.kept⟩

/-- Where `guard_page_at` returns: not on the window's page, and with the scheduler running not on a
present page. -/
theorem guardPageAt_returns (hptr : ptr < 2 ^ 32)
    (hok : GuardOk s (ptr / 4096)) (h : guardPageAt s ptr = some s') :
    ptr / 4096 ≠ s.tableFrame ∧ (s.schedulerReady = true →
      present (storedEntry s s.current (ptr / 4096)) = false) := by
  have hidx : ptr / 4096 < 2 ^ 20 := by omega
  cases hready : s.schedulerReady with
  | false =>
    refine ⟨fun hF => ?_, by simp⟩
    have hp : present (storedEntry s s.current (ptr / 4096)) = true := by
      rw [hF]
      exact ht.stored_window
    exact (hok hready hp).not_window hF
  | true =>
    have hnp : ¬present (getTableEntry s s.current (ptr / 4096)).1 = true := by
      intro hp
      simp only [guardPageAt, pageSize, hready, if_true, if_pos hp] at h
      cases h
    have hF : ptr / 4096 ≠ s.tableFrame := by
      intro hF
      rw [hF] at hnp
      exact hnp (ht.getTableEntry_window ht.live_current ht.windowed)
    rw [ht.getTableEntry_eq ht.live_current ht.windowed hidx hF] at hnp
    exact ⟨hF, fun _ => eq_false_of_ne_true hnp⟩

/-- **`guard_page_at`.** -/
theorem guardPageAt_owned (ho : Owned s) (hptr : ptr < 2 ^ 32)
    (hok : GuardOk s (ptr / 4096)) (hns : s.schedulerReady = false → NotShared s (ptr / 4096))
    (h : guardPageAt s ptr = some s') : Tables s' ∧ Owned s' ∧ Kept s s' := by
  obtain ⟨hF, habsent⟩ := guardPageAt_returns ht hptr hok h
  obtain ⟨hts, hrep⟩ := guardPageAt_spec ht hptr hok h
  refine ⟨hts, hrep.owned rfl ht (by omega) hF ?_ ho.sound ho.books, hrep.written.kept⟩
  cases hready : s.schedulerReady with
  | false => exact hns hready
  | true =>
    intro hp
    rw [habsent hready] at hp
    cases hp

theorem look_owned (ho : Owned s) (haddr : addr < 2 ^ 32) :
    Owned (virt2phys s s.current addr).2 := (look_quiet ht haddr).owned ht ho

/-- **`PageDirectory()`.** -/
theorem newDirectory_owned (ho : Owned s)
    (h : newDirectory s pid rest = some s') : Owned s' := by
  obtain ⟨hpid, h⟩ := ite_none_left_eq_some.1 h
  obtain ⟨⟨a, x⟩, hx, h⟩ := bind_eq_some_iff.1 h
  obtain ⟨htx, hk⟩ := alloc_spec ht hx
  have hox := alloc_owned ht ho hx
  split at h
  · cases h
  · have ha := alloc_lt ht hx
    have hq := look_quiet htx ha
    cases h
    refine addDirectory_owned (htx.quiet hq) ?_ (fun _ => rfl) rfl (look_owned htx hox ha)
    rw [hq.live, hk.live]
    exact eq_false_of_ne_true hpid

end

end

/-! ### The step -/

/-- What the operations ask for, in the state before them; `free_pages`, before each turn. -/
def PageOk (s : State) : DirOp → Prop
  | .mapPageAt _ page _ => ¬IsFree s.physical page ∧ ¬IsTable s page ∧
      (∀ d idx, ¬Maps s d idx page) ∧ ∀ a, ¬InSpace s a page
  | .freePages addr pages => ∀ i < pages, ∀ u, turns (freeTurn addr) i s = some u →
      NotShared u (pageAddr addr i / 4096)
  | .guardPageAt ptr => s.schedulerReady = false → NotShared s (ptr.1 / 4096)
  | _ => True

/-- **The step lemma** for the operations of a directory. -/
theorem dirStep_owned (ht : Tables s) (ho : Owned s) (hok : DirOk s op)
    (hpage : PageOk s op) (h : dirStep s op = some s') : Owned s' := by
  cases op with
  | alloc pages mode =>
    obtain ⟨⟨a, x⟩, hx, rfl⟩ := map_eq_some_iff.1 h
    exact alloc_owned ht ho hx
  | allocPagesAt pages baseaddr =>
    exact (allocPagesAt_rule Owned ht ho hok (fun _ _ _ _ _ hu hnew =>
      hnew.owned (pagesAtFlags_present _).1 hu) h).2
  | mapPageAt addr page flags =>
    obtain ⟨hnfree, hntable, hnmaps, hnspace⟩ := hpage
    obtain ⟨hF, hflags, hother⟩ := hok
    obtain ⟨-, hw, hfree⟩ := mapPageAt_spec ht addr.2 hF page.2.1 hflags hother h
    have haddr : addressOf (page.1 ||| flags) = page.1 :=
      addressOf_or page.2.1 page.2.2 hflags.1
    refine hw.owned ho.sound ho.books hfree ?_ ?_ ?_ ?_ <;> rw [haddr]
    · exact fun hf => hnfree (hfree _ hf)
    · exact hw.not_isTable hnfree hntable
    · exact fun d j _ hm => absurd hm (hnmaps d j)
    · exact fun a ha => absurd ha (hnspace a)
  | mapNewPageAt addr flags =>
    obtain ⟨hF, hflags, hother⟩ := hok
    obtain ⟨-, f, hnew⟩ := mapNewPageAt_spec ht addr.2 hF hflags hother.notCachedElsewhere h
    exact hnew.owned hflags.1 ho
  | freePages addr pages =>
    exact (freePages_owned ht ho (fun i hi u hu => ⟨hok i hi u hu, hpage i hi u hu⟩) h).2.1
  | guardPageAt ptr => exact (guardPageAt_owned ht ho ptr.2 hok hpage h).2.1
  | look addr =>
    cases h
    exact look_owned ht ho addr.2
  | switchTo pid =>
    simp only [dirStep] at h
    split at h
    · rename_i hlive
      cases h
      exact (mm2Switch_spread ht hlive).owned ht ho
    · cases h
  | newDirectory pid rest => exact newDirectory_owned ht ho h
  | startScheduler =>
    cases h
    have hc : Carried s { s with schedulerReady := true } :=
      ⟨⟨rfl, rfl, rfl⟩, fun _ _ => rfl, fun _ => rfl, fun _ => rfl, fun _ _ => id⟩
    exact (hc.owned ht ho (fun _ => id) (fun _ _ => Iff.rfl) (fun _ _ => id)
      (ho.books.congr rfl (fun _ => rfl) rfl rfl rfl rfl)).2

end Btos.Kernel.Mm2
