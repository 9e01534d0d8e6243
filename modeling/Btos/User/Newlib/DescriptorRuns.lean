import Btos.User.Newlib.DescriptorCounts

/-!
# Runs of `open`, `dup` and `close`

The invariant over sequences of calls in one thread, from the standard streams on, with what each descriptor should
stand for.  What is read and written through descriptors is left out.

* `descriptors_right` — **every run of such calls is right**: no null pointer and no freed record is used, a descriptor
  that has been closed is free, the duplicates stand for the same file as before, and a file is closed once, with its last
  descriptor.
-/

namespace Btos.User.Newlib.Descriptors

open Lib.Slots Lib.Transition Function List Option Record

/-! ### What descriptors stand for -/

def showRecord (heap : ℕ → Option Record) : Option Record → Shown
  | none => .free
  | some (.dup q) => target (heap q)
  | some r => target (some r)

theorem shows_eq (hs : Sound s) (fd : ℕ) : s.shows fd = showRecord s.heap (s.record fd) := by
  cases hp : s.ptr fd with
  | none => simp only [Crt.shows, Crt.record, hp, bind_none, showRecord]
  | some p =>
    obtain ⟨r, hr⟩ := hs.live fd p hp
    simp only [Crt.shows, Crt.record, hp, bind_some, hr]
    cases r with
    | null | os handle | dup parent => rfl

theorem showRecord_congr
    (h : ∀ q, r = some (.dup q) → heap' q = heap q) : showRecord heap' r = showRecord heap r := by
  cases r with
  | none => rfl
  | some r =>
    cases r with
    | null | os handle => rfl
    | dup parent =>
      rw [showRecord, showRecord, h parent rfl]

theorem target_eq_file : target o = .target (.file k) ↔ o = some (.os k) := by
  cases o with
  | none => simp [target]
  | some r =>
    cases r with
    | null | os handle | dup parent => simp [target]

/-- The record of a file that a descriptor stands for. -/
theorem file_of_showRecord (hr : (p : Option ℕ).bind heap = r) (h : showRecord heap r = .target (.file k)) :
    ∃ q, heap q = some (.os k) := by
  cases r with
  | none => cases h
  | some r =>
    obtain ⟨q, -, hq⟩ := bind_eq_some_iff.mp hr
    cases r with
    | null => cases h
    | os handle => exact ⟨q, hq.trans (target_eq_file.mp h)⟩
    | dup parent => exact ⟨parent, target_eq_file.mp h⟩

structure Inv (r : Run) : Prop where
  alive : r.crashed = false
  sound : Sound r.crt
  counts : ∃ refs, Counts r.crt refs
  shows : ∀ fd, showRecord r.crt.heap (r.crt.record fd) = shown (r.spec fd)

variable {r : Run}

theorem Inv.right (h : Inv r) : Right r := by
  have hrecord : ∀ {fd p}, r.crt.ptr fd = some p → r.crt.record fd = r.crt.heap p := by
    intro fd p hp
    rw [Crt.record, hp, bind_some]
  refine ⟨h.alive, fun fd => (shows_eq h.sound fd).trans (h.shows fd), ?_, ?_⟩
  · rintro k - ⟨fd, hfd⟩
    have hshows := h.shows fd
    rw [hfd] at hshows
    obtain ⟨p, hp⟩ := file_of_showRecord rfl hshows
    exact (h.sound.handle p k hp).2
  · intro k hk hno
    refine h.sound.closed k hk fun p hp => ?_
    obtain ⟨fd, hfd⟩ := h.sound.held p k hp
    have hshows := h.shows fd
    rw [hrecord hfd, hp] at hshows
    apply hno fd
    cases hspec : r.spec fd with
    | none =>
      rw [hspec] at hshows
      cases hshows
    | some t =>
      rw [hspec] at hshows
      cases hshows
      rfl

/-- **A record is installed** that shows `t`. -/
theorem Inv.install (h : Inv r) (hin : Installed r.crt s' fd p x) (hcounts : ∃ refs, Counts s' refs)
    (hnew : showRecord s'.heap (some x) = shown t) : Inv { r with crt := s', spec := update r.spec fd t } := by
  refine ⟨h.alive, hin.sound h.sound, hcounts, fun fd' => ?_⟩
  show showRecord s'.heap (s'.record fd') = shown (update r.spec fd t fd')
  rw [hin.record h.sound]
  by_cases hfd : fd' = fd
  · rw [if_pos hfd, hnew, hfd, update_self]
  · rw [if_neg hfd, update_of_ne hfd, ← h.shows]
    refine showRecord_congr fun q hq => ?_
    obtain ⟨⟨fd'', hfd''⟩, -⟩ := h.sound.parent fd' q (Crt.parentOf_eq_some.mpr hq)
    obtain ⟨r', hr'⟩ := h.sound.live fd'' q hfd''
    rw [hr', hin.heap_old h.sound hr']

theorem parentOf_eq_none {s : Crt} {fd : ℕ} (h : s.ptr fd = none) : s.parentOf fd = none := by
  rw [Crt.parentOf, Crt.record, h, bind_none, bind_none]

/-- One that is no duplicate. -/
theorem Inv.install_plain (h : Inv r) (hin : Installed r.crt s' fd p x) (hdups : s'.dups = r.crt.dups)
    (hplain : Record.parent x = none) (hnew : showRecord s'.heap (some x) = shown t) :
    Inv { r with crt := s', spec := update r.spec fd t } := by
  obtain ⟨refs, hcounts⟩ := h.counts
  refine h.install hin ⟨refs, hcounts.same (fun fd' => ?_) hdups⟩ hnew
  rw [hin.parentOf h.sound]
  by_cases hfd : fd' = fd
  · rw [if_pos hfd, hfd, parentOf_eq_none hin.free, hplain]
  · rw [if_neg hfd]

/-- **A descriptor is free again.** -/
theorem Inv.remove (h : Inv r) (hrem : Removed r.crt s' fd p) (hcounts : ∃ refs, Counts s' refs) :
    Inv { r with crt := s', spec := update r.spec fd none } := by
  refine ⟨h.alive, hrem.sound h.sound, hcounts, fun fd' => ?_⟩
  show showRecord s'.heap (s'.record fd') = shown (update r.spec fd none fd')
  rw [hrem.record h.sound]
  by_cases hfd : fd' = fd
  · rw [if_pos hfd, hfd, update_self]
    rfl
  · rw [if_neg hfd, update_of_ne hfd, ← h.shows]
    refine showRecord_congr fun q hq => ?_
    have hqp : q ≠ p := by
      rintro rfl
      exact hrem.child fd' (Crt.parentOf_eq_some.mpr hq)
    rw [hrem.heap, update_of_ne hqp]

/-! ### The calls -/

/-- **A file is opened**, also for a standard stream. -/
theorem inv_sysOpen (h : Inv r) :
    Inv { r with crt := (sysOpen r.crt).1, spec := update r.spec (sysOpen r.crt).2 (some (.file r.crt.next)) } := by
  obtain ⟨l, fd, hset, hslot, hfree⟩ := btosSetFilenumVirt_spec
    { (r.crt.malloc (.os r.crt.next)).1 with opened := r.crt.next :: r.crt.opened } r.crt.next
  rw [show sysOpen r.crt = _ from hset]
  refine h.install_plain ⟨rfl, hslot, .inl (h.sound.fresh _ (Nat.le_refl _)), hfree, Nat.le_succ _, Nat.lt_succ_self _,
    ?_, by simp, ?_, rfl⟩ rfl rfl rfl
  · intro k hk
    rw [← os.inj hk]
    exact ⟨Nat.le_refl _, Nat.lt_succ_self _⟩
  · intro k
    rw [mem_cons, os.injEq, or_comm, eq_comm]

/-- **A descriptor that is no duplicate is duplicated.** -/
theorem inv_sysDup (h : Inv r) {fd v : ℕ} (hv : r.crt.ptr fd = some v) (hno : ∀ q, r.crt.record fd ≠ some (.dup q)) :
    ∃ s' fd', sysDup r.crt fd = (s', some fd') ∧ Inv { r with crt := s', spec := update r.spec fd' (r.spec fd) } := by
  obtain ⟨l, fd', hset, hslot, hfree⟩ := btosSetFilenumVirt_spec (btosDup r.crt v).1 r.crt.next
  have hrecord : r.crt.record fd = r.crt.heap v := by rw [Crt.record, hv, bind_some]
  rw [hrecord] at hno
  obtain ⟨refs, hcounts⟩ := h.counts
  have hin : Installed r.crt { (btosDup r.crt v).1 with filehandles := l } fd' r.crt.next (.dup v) := by
    refine ⟨rfl, hslot, .inl (h.sound.fresh _ (Nat.le_refl _)), hfree, Nat.le_succ _, Nat.lt_succ_self _,
      by simp, ?_, ?_, rfl⟩
    · intro q hq
      cases hq
      exact ⟨⟨fd, hv⟩, hno⟩
    · intro k
      rw [or_iff_left (by simp)]
      rfl
  refine ⟨_, fd', ?_, h.install hin ⟨_, hcounts.dup (parentOf_eq_none hfree) (hin.parentOf h.sound) rfl⟩ ?_⟩
  · simp only [sysDup, hv]
    rw [show (btosDup r.crt v).2 = r.crt.next from rfl, hset]
  · -- the new record shows what its parent shows
    have hshows := h.shows fd
    rw [hrecord] at hshows
    rw [← hshows, hin.heap, showRecord, update_of_ne (Nat.ne_of_lt (h.sound.ptr_lt hv))]
    obtain ⟨r', hr'⟩ := h.sound.live fd v hv
    rw [hr'] at hno ⊢
    cases r' with
    | null | os handle => rfl
    | dup q => exact absurd rfl (hno q)

theorem sysClose_spec (hp : s.ptr fd = some p) (hclose : btosClose s p = some (x, true)) (hx : x.ptr = s.ptr) :
    ∃ s', sysClose s fd = some (s', 0) ∧ s'.heap = update x.heap p none ∧ s'.ptr = update s.ptr fd none ∧
      s'.next = x.next ∧ s'.dups = x.dups ∧ s'.opened = x.opened ∧ s'.closes = x.closes := by
  have hpx : x.ptr fd = some p := by rw [hx, hp]
  refine ⟨{ x with heap := update x.heap p none, filehandles := x.filehandles.set fd none }, ?_, rfl, ?_, rfl, rfl, rfl,
    rfl⟩
  · simp only [sysClose, hp, hclose, btosRemoveFilenum, hpx]
  · rw [← hx]
    exact slot_set (lt_of_slot hpx) _

/-- **A file without duplicates is closed.** -/
theorem inv_close_os (h : Inv r) (hp : r.crt.ptr fd = some p) (hk : r.crt.heap p = some (.os k))
    (hno : ∀ d ∈ r.crt.dups, ∀ e, d = some e → r.crt.ptr fd ≠ some e.vh) :
    ∃ s', sysClose r.crt fd = some (s', 0) ∧ Inv { r with crt := s', spec := update r.spec fd none } := by
  have hfind : r.crt.dups.findIdx? (fun o => o.any fun d => d.vh = p) = none := by
    rw [findIdx?_eq_none_iff]
    intro o ho
    cases o with
    | none => rfl
    | some e =>
      have hne : e.vh ≠ p := by
        rintro rfl
        exact hno _ ho e rfl hp
      simp [hne]
  have hclose : btosClose r.crt p = some ({ r.crt with closes := r.crt.closes ++ [k] }, true) := by
    simp only [btosClose, hk, closeOriginal, hfind]
  obtain ⟨refs, hcounts⟩ := h.counts
  have hself : r.crt.parentOf fd = none := by
    rw [Crt.parentOf, Crt.record, hp, bind_some, hk]
    rfl
  obtain ⟨s', hs', hheap, hptr, hnext, hdups, hopened, hcloses⟩ := sysClose_spec hp hclose rfl
  have hrem : Removed r.crt s' fd p := by
    refine ⟨hp, hheap, hptr, ?_, fun fd' hfd' => ?_, hnext, hopened, fun k' => ?_⟩
    · rintro rfl
      rw [h.sound.null] at hk
      cases hk
    · obtain ⟨i, d, hi, hd⟩ := hcounts.entry hfd'
      exact hno _ (mem_of_getElem? (slot_eq_some.mp hi)) d rfl (by rw [hd, hp])
    · rw [hcloses, count_append, count_singleton, hk]
      simp only [beq_iff_eq, some.injEq, os.injEq]
  refine ⟨s', hs', h.remove hrem ⟨refs, hcounts.same (fun fd' => ?_) hdups⟩⟩
  rw [hrem.parentOf h.sound]
  by_cases hfd : fd' = fd
  · rw [if_pos hfd, hfd, hself]
  · rw [if_neg hfd]

/-- **A duplicate is closed.** -/
theorem inv_close_dup (h : Inv r) (hp : r.crt.ptr fd = some p) (hq : r.crt.heap p = some (.dup q))
    (hclear : noNullBefore q r.crt.dups = true) :
    ∃ s', sysClose r.crt fd = some (s', 0) ∧ Inv { r with crt := s', spec := update r.spec fd none } := by
  obtain ⟨refs, hc⟩ := h.counts
  have hself : r.crt.parentOf fd = some q := by
    rw [Crt.parentOf_eq_some, Crt.record, hp, bind_some, hq]
  obtain ⟨k, e, hk, he⟩ := hc.entry hself
  obtain ⟨i, d, hscan, hi, hd⟩ := closeScan_eq hclear 0 hk he
  rw [Nat.zero_add] at hscan
  have hclose : btosClose r.crt p = some ({ r.crt with
      dups := r.crt.dups.set i (if d.count - 1 = 0 then none else some { d with count := d.count - 1 }) }, true) := by
    have hentry : d.pendClose = false := by rw [(hc.entries i d hi).1]
    simp only [btosClose, hq, closeDup, hscan, hi, closeEntry, hentry]
    split <;> rfl
  obtain ⟨s', hs', hheap, hptr, hnext, hdups, hopened, hcloses⟩ := sysClose_spec hp hclose rfl
  have hrem : Removed r.crt s' fd p := by
    refine ⟨hp, hheap, hptr, ?_, fun fd' hfd' => (h.sound.parent fd' p hfd').2 q hq, hnext, hopened, fun k => ?_⟩
    · rintro rfl
      rw [h.sound.null] at hq
      cases hq
    · rw [hcloses, hq]
      rfl
  exact ⟨s', hs', h.remove hrem
    ⟨_, hc.close hself (hrem.parentOf h.sound) hi hd (hdups ▸ slot_set (lt_of_slot hi) _)⟩⟩

theorem inv_free (h : Inv r) (hp : r.crt.ptr fd = none) : Inv { r with spec := update r.spec fd none } := by
  have hspec : r.spec fd = none := by
    have hshows := h.shows fd
    rw [Crt.record, hp] at hshows
    cases ht : r.spec fd with
    | none => rfl
    | some t =>
      rw [ht] at hshows
      cases hshows
  rw [← hspec, update_eq_self]
  exact h

/-! ### Runs -/

/-- **One call** that is admitted. -/
theorem inv_step (h : Inv r) (hok : StepOk r c) (hstep : step r c = some r') : Inv r' := by
  have halive : ¬ r.crashed = true := by
    rw [h.alive]
    exact Bool.false_ne_true
  unfold step at hstep
  rw [if_neg halive] at hstep
  cases c with
  | openFile =>
    cases hstep
    exact inv_sysOpen h
  | dup fd =>
    cases hv : r.crt.ptr fd with
    | none =>
      simp only [sysDup, hv, some.injEq] at hstep
      exact hstep ▸ h
    | some v =>
      obtain ⟨s', fd', hdup, hinv⟩ := inv_sysDup h hv hok
      simp only [hdup, some.injEq] at hstep
      exact hstep ▸ hinv
  | close fd =>
    cases hp : r.crt.ptr fd with
    | none =>
      simp only [sysClose, hp, some.injEq] at hstep
      exact hstep ▸ inv_free h hp
    | some p =>
      obtain ⟨rec, hrec⟩ := h.sound.live fd p hp
      have hrecord : r.crt.record fd = some rec := by rw [Crt.record, hp, bind_some, hrec]
      rw [StepOk, hrecord] at hok
      cases rec with
      | null => exact hok.elim
      | os k =>
        obtain ⟨s', hclose, hinv⟩ := inv_close_os h hp hrec hok
        simp only [hclose, some.injEq] at hstep
        exact hstep ▸ hinv
      | dup q =>
        obtain ⟨s', hclose, hinv⟩ := inv_close_dup h hp hrec hok
        simp only [hclose, some.injEq] at hstep
        exact hstep ▸ hinv

theorem inv_empty : Inv Run.empty := by
  have hptr : ∀ fd, Run.empty.crt.ptr fd = none := fun fd => slot_eq_none_of_le (Nat.zero_le fd)
  have hfree : ∀ {fd p}, Run.empty.crt.ptr fd ≠ some p := fun {fd p} hp => some_ne_none p (hp.symm.trans (hptr fd))
  have hheap : ∀ {p r}, Run.empty.crt.heap p = some r → r = .null := by
    intro p r hp
    by_cases hp0 : p = 0
    · rw [hp0] at hp
      cases hp
      rfl
    · rw [Run.empty] at hp
      simp only [update_of_ne hp0] at hp
      cases hp
  have hno : ∀ {p k}, Run.empty.crt.heap p ≠ some (.os k) := fun hp => Record.noConfusion (hheap hp)
  refine ⟨rfl, ⟨rfl, ?_, ?_, ?_, ?_, ?_, ?_, ?_, ?_, ?_⟩, ⟨[], ?_⟩, ?_⟩
  · intro p hp
    show update (fun _ => none) 0 (some null) p = none
    rw [update_of_ne (Nat.ne_of_gt hp)]
  · exact fun fd p hp => absurd hp hfree
  · exact fun fd fd' p hp => absurd hp hfree
  · intro fd q hq
    cases hq
  · exact fun p k hp => absurd hp hno
  · exact fun p p' k hp => absurd hp hno
  · simp [Run.empty]
  · exact fun p k hp => absurd hp hno
  · simp [Run.empty]
  · refine ⟨nodup_nil, fun fd q => ?_, ?_, by simp, ?_⟩
    · rw [parentOf_eq_none (hptr fd)]
      simp
    all_goals
      intro i
      simp [Run.empty, slot]
  · intro fd
    rw [Crt.record]
    rfl

/-- **A standard stream that is not there**: the descriptor has the null record. -/
theorem inv_nullStream (h : Inv r) : Inv { r with
    crt := { r.crt with filehandles := r.crt.filehandles ++ [some 0] }
    spec := update r.spec r.crt.filehandles.length (some .null) } := by
  generalize hs' : { r.crt with filehandles := r.crt.filehandles ++ [some 0] } = s'
  have hptr : s'.ptr = update r.crt.ptr r.crt.filehandles.length (some 0) := hs' ▸ slot_snoc _ _
  have hheap : s'.heap = update r.crt.heap 0 (some .null) := by
    rw [← h.sound.null, update_eq_self, ← hs']
  have hfree : r.crt.ptr r.crt.filehandles.length = none := slot_eq_none_of_le (Nat.le_refl _)
  have hnext : s'.next = r.crt.next := hs' ▸ rfl
  refine h.install_plain ⟨hheap, hptr, .inr ⟨rfl, rfl⟩, hfree, Nat.le_of_eq hnext.symm, hnext ▸ h.sound.lt_next h.sound.null,
    by simp, by simp, fun k => ?_, hs' ▸ rfl⟩ (hs' ▸ rfl) rfl rfl
  rw [← hs']
  simp

theorem inv_addStream (h : Inv r) (given : Bool) : Inv (r.addStream given) := by
  cases given with
  | true => exact inv_sysOpen h
  | false => exact inv_nullStream h

theorem inv_initial (stdin stdout stderr : Bool) : Inv (Run.initial stdin stdout stderr) :=
  inv_addStream (inv_addStream (inv_addStream inv_empty stdin) stdout) stderr

/-- **Every run of such calls is right.** -/
theorem descriptors_right {stdin stdout stderr : Bool} {r : Run}
    (h : Reach step StepOk (Run.initial stdin stdout stderr) r) : Right r :=
  (h.invariant Inv (inv_initial stdin stdout stderr) fun _ _ _ => inv_step).right

/-- A file is opened and duplicated, and first the duplicate is closed. -/
theorem descriptors_right_inOrder : ∃ r, Reach step StepOk (Run.initial true true false) r ∧
    (r.crt.opened.length = 3 ∧ r.crt.closes.length = 1 ∧ r.spec 3 = none) ∧ Right r := by
  obtain ⟨r, hreach, hr⟩ := Reach.of_exec_check step StepOk [.openFile, .dup 3, .dup 2, .close 4, .close 3]
    (Run.initial true true false)
    (fun r => r.crt.opened.length = 3 && r.crt.closes.length = 1 && r.spec 3 = none) (by decide +kernel) (by decide +kernel)
  simp only [Bool.and_eq_true, decide_eq_true_eq] at hr
  exact ⟨r, hreach, ⟨hr.1.1, hr.1.2, hr.2⟩, descriptors_right hreach⟩

/-- **A file is closed before its duplicate.**  It keeps its descriptor; with its duplicate it is closed, and when the
descriptor is closed again, once more. -/
theorem descriptors_fail : ∃ r k, Reach step anyStep (Run.initial true true true) r ∧ k ∈ r.crt.opened ∧
    r.crt.closes.count k = 2 ∧ ¬ Right r := by
  obtain ⟨r, hreach, hr⟩ := Reach.of_exec_check step anyStep [.openFile, .dup 3, .close 3, .close 4, .close 3]
    (Run.initial true true true)
    (fun r => r.crt.opened.contains 4 && r.crt.closes.count 4 = 2 && r.spec 3 = none) (guarded_anyStep _ _ _)
    (by decide +kernel)
  simp only [Bool.and_eq_true, decide_eq_true_eq, contains_iff_mem] at hr
  obtain ⟨⟨hmem, hcount⟩, -⟩ := hr
  refine ⟨r, 4, hreach, hmem, hcount, fun hright => ?_⟩
  by_cases hfd : ∃ fd, r.spec fd = some (.file 4)
  · have hkept := hright.kept 4 hmem hfd
    omega
  · have hclosed := hright.closed 4 hmem fun fd h => hfd ⟨fd, h⟩
    omega

end Btos.User.Newlib.Descriptors
