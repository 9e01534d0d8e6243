import Btos.User.Newlib.Descriptors

/-!
# The tables of descriptors and duplicates

What the functions on the two tables do, and what they keep.

* `btosSetFilenumVirt_spec`, `dupEntry_spec`, `closeScan_eq` — **the loops**;
* `Sound` — **the invariant of the records**, `Installed.sound`, `Removed.sound` — **a record for a descriptor, and a
  descriptor that is free again**.
-/

namespace Btos.User.Newlib.Descriptors

open Lib.Slots Function List Option Crt

/-! ### The loops -/

/-- **The first descriptor that is free.** -/
theorem btosSetFilenumVirt_spec (s : Crt) (vh : ℕ) :
    ∃ l fd, btosSetFilenumVirt s vh = ({ s with filehandles := l }, fd) ∧
      slot l = update (slot s.filehandles) fd (some vh) ∧ slot s.filehandles fd = none := by
  rw [btosSetFilenumVirt]
  cases hfind : s.filehandles.findIdx? (fun o => o.isNone) with
  | none => exact ⟨_, _, rfl, slot_snoc _ _, slot_eq_none_of_le (Nat.le_refl _)⟩
  | some i =>
    obtain ⟨hi, hnone, -⟩ := findIdx?_eq_some_iff_getElem.mp hfind
    refine ⟨_, _, rfl, slot_set hi _, ?_⟩
    rw [slot, getElem?_eq_getElem hi, isNone_iff_eq_none.mp hnone]
    rfl

/-- What the loop of `btos_dup` finds from the index `i` on: the entry of `vh`, or a place for it. -/
def Searched (vh : ℕ) (ds : List (Option Dup)) (i : ℕ) (z : Option ℕ) (r : Option ℕ × Option ℕ) : Prop :=
  (∃ k d, r.1 = some (i + k) ∧ slot ds k = some d ∧ d.vh = vh) ∨
    (r.1 = none ∧ (∀ k d, slot ds k = some d → d.vh ≠ vh) ∧
      (r.2 = z ∨ ∃ k, r.2 = some (i + k) ∧ k < ds.length ∧ slot ds k = none))

theorem Searched.cons (h : Searched vh ds (i + 1) z r) (ho : ∀ d, o = some d → d.vh ≠ vh) :
    Searched vh (o :: ds) i z r := by
  have hshift : ∀ k, i + 1 + k = i + (k + 1) := fun k => by omega
  rcases h with ⟨k, d, hidx, hslot, hd⟩ | ⟨hidx, hno, hz⟩
  · exact .inl ⟨k + 1, d, by rw [hidx, hshift], hslot, hd⟩
  · refine .inr ⟨hidx, fun k d h => ?_, hz.imp_right ?_⟩
    · cases k with
      | zero => exact ho d h
      | succ k => exact hno k d h
    · rintro ⟨k, hz, hk, hslot⟩
      exact ⟨k + 1, by rw [hz, hshift], Nat.succ_lt_succ hk, hslot⟩

theorem dupSearch_spec (vh : ℕ) (ds : List (Option Dup)) (i : ℕ) (z : Option ℕ) :
    Searched vh ds i z (dupSearch vh ds i z) := by
  induction ds generalizing i z with
  | nil => exact .inr ⟨rfl, fun k d h => absurd (lt_of_slot h) (Nat.not_lt_zero k), .inl rfl⟩
  | cons o ds ih =>
    cases o with
    | none =>
      rcases (ih (i + 1) (some i)).cons (o := none) (by simp) with hfound | ⟨hidx, hno, hz⟩
      · exact .inl hfound
      · exact .inr ⟨hidx, hno, .inr (hz.elim (fun hz => ⟨0, hz, Nat.succ_pos _, rfl⟩) id)⟩
    | some e =>
      rw [dupSearch]
      by_cases he : e.vh = vh
      · rw [if_pos he]
        exact .inl ⟨0, e, rfl, rfl, he⟩
      · rw [if_neg he]
        exact (ih (i + 1) z).cons fun d hd => Option.some.inj hd ▸ he

/-- **The table after `btos_dup`**: the entry counts one more, or there is a new one. -/
theorem dupEntry_spec (dups : List (Option Dup)) (vh : ℕ) : ∃ i, (∃ d, slot dups i = some d ∧ d.vh = vh ∧
        slot (countUp (dupEntry dups vh).1 (dupEntry dups vh).2) =
          update (slot dups) i (some { d with count := d.count + 1 })) ∨
      (slot dups i = none ∧ (∀ j d, slot dups j = some d → d.vh ≠ vh) ∧
        slot (countUp (dupEntry dups vh).1 (dupEntry dups vh).2) =
          update (slot dups) i (some ⟨vh, 1, false⟩)) := by
  rcases hsearch : dupSearch vh dups 0 none with ⟨idx, z⟩
  have hspec := dupSearch_spec vh dups 0 none
  rw [hsearch] at hspec
  rcases hspec with ⟨k, d, hidx, hslot, hd⟩ | ⟨hidx, hno, hz⟩
  · obtain rfl : idx = some k := by simpa using hidx
    refine ⟨k, .inl ⟨d, hslot, hd, ?_⟩⟩
    simp only [dupEntry, hsearch, countUp, hslot]
    exact slot_set (lt_of_slot hslot) _
  · obtain rfl : idx = none := hidx
    rcases hz with rfl | ⟨k, hk, hlt, hslot⟩
    · refine ⟨dups.length, .inr ⟨slot_eq_none_of_le (Nat.le_refl _), hno, ?_⟩⟩
      have hnew : slot (dups ++ [some ⟨vh, 0, false⟩]) dups.length = some ⟨vh, 0, false⟩ := by
        rw [slot_snoc, update_self]
      simp only [dupEntry, hsearch, countUp, hnew]
      rw [slot_set (by rw [length_append]; exact Nat.lt_succ_self _), slot_snoc, update_idem]
    · obtain rfl : z = some k := by simpa using hk
      refine ⟨k, .inr ⟨hslot, hno, ?_⟩⟩
      have hnew : slot (dups.set k (some ⟨vh, 0, false⟩)) k = some ⟨vh, 0, false⟩ := by
        rw [slot_set hlt, update_self]
      simp only [dupEntry, hsearch, countUp, hnew]
      rw [slot_set (by rw [length_set]; exact hlt), slot_set hlt, update_idem]

/-- **The loop of `btos_close`** finds the entry if no null pointer is in its way. -/
theorem closeScan_eq (hclear : noNullBefore parent ds = true) (i : ℕ) (hslot : slot ds k = some d) (hd : d.vh = parent) :
    ∃ j e, closeScan parent ds i = some (some (i + j)) ∧ slot ds j = some e ∧ e.vh = parent := by
  induction ds generalizing i k with
  | nil => exact absurd (lt_of_slot hslot) (Nat.not_lt_zero k)
  | cons o ds ih =>
    cases o with
    | none => cases hclear
    | some e =>
      rw [closeScan]
      by_cases he : e.vh = parent
      · rw [if_pos he]
        exact ⟨0, e, rfl, rfl, he⟩
      · rw [if_neg he]
        have hrest : noNullBefore parent ds = true := by
          simpa [noNullBefore, he] using hclear
        cases k with
        | zero =>
          cases hslot
          exact absurd hd he
        | succ k =>
          obtain ⟨j, e', hscan, hslot', he'⟩ := ih hrest (i + 1) hslot
          exact ⟨j + 1, e', by rw [hscan, Nat.add_right_comm, Nat.add_assoc], hslot', he'⟩

/-! ### Records -/

def Record.parent : Record → Option ℕ
  | .dup parent => some parent
  | _ => none

/-- The parent of a descriptor that is a duplicate. -/
def Crt.parentOf (s : Crt) (fd : ℕ) : Option ℕ := (s.record fd).bind Record.parent

theorem Record.parent_eq_some {r : Record} {q : ℕ} : r.parent = some q ↔ r = .dup q := by
  cases r with
  | null | os handle | dup parent => simp [Record.parent]

theorem Crt.parentOf_eq_some {s : Crt} {fd q : ℕ} : s.parentOf fd = some q ↔ s.record fd = some (.dup q) := by
  rw [parentOf, bind_eq_some_iff]
  simp only [Record.parent_eq_some, exists_eq_right]

structure Sound (s : Crt) : Prop where
  null : s.heap 0 = some .null
  fresh : ∀ p, s.next ≤ p → s.heap p = none
  live : ∀ fd p, s.ptr fd = some p → ∃ r, s.heap p = some r
  single : ∀ fd fd' p, s.ptr fd = some p → s.ptr fd' = some p → p = 0 ∨ fd = fd'
  parent : ∀ fd q, s.parentOf fd = some q → (∃ fd', s.ptr fd' = some q) ∧ ∀ q', s.heap q ≠ some (.dup q')
  held : ∀ p h, s.heap p = some (.os h) → ∃ fd, s.ptr fd = some p
  unique : ∀ p p' h, s.heap p = some (.os h) → s.heap p' = some (.os h) → p = p'
  handles : ∀ h, h ∈ s.opened ∨ h ∈ s.closes → h < s.next
  handle : ∀ p h, s.heap p = some (.os h) → h ∈ s.opened ∧ s.closes.count h = 0
  closed : ∀ h ∈ s.opened, (∀ p, s.heap p ≠ some (.os h)) → s.closes.count h = 1

variable {s s' : Crt} {fd p q : ℕ} {r r' : Record}

namespace Sound

theorem lt_next (hs : Sound s) (h : s.heap p = some r) : p < s.next := by
  by_contra hle
  rw [hs.fresh p (Nat.not_lt.mp hle)] at h
  cases h

theorem ptr_lt (hs : Sound s) (h : s.ptr fd = some p) : p < s.next := by
  obtain ⟨r, hr⟩ := hs.live fd p h
  exact hs.lt_next hr

end Sound

/-! ### A record for a descriptor -/

/-- **The descriptor `fd`, which was free, gets the record `r` at `p`**: a new one, or the null record. -/
structure Installed (s s' : Crt) (fd p : ℕ) (r : Record) : Prop where
  heap : s'.heap = update s.heap p (some r)
  ptr : s'.ptr = update s.ptr fd (some p)
  new : s.heap p = none ∨ (p = 0 ∧ r = .null)
  free : s.ptr fd = none
  next : s.next ≤ s'.next
  lt : p < s'.next
  handle : ∀ h, r = .os h → s.next ≤ h ∧ h < s'.next
  parent : ∀ q, r = .dup q → (∃ fd', s.ptr fd' = some q) ∧ ∀ q', s.heap q ≠ some (.dup q')
  opened : ∀ h, h ∈ s'.opened ↔ h ∈ s.opened ∨ r = .os h
  closes : s'.closes = s.closes

namespace Installed

section

variable (hin : Installed s s' fd p r) (hs : Sound s)
include hin hs

theorem heap_old (hq : s.heap q = some r') : s'.heap q = some r' := by
  rw [hin.heap]
  by_cases hqp : q = p
  · subst hqp
    rcases hin.new with hnone | ⟨rfl, rfl⟩
    · rw [hnone] at hq
      cases hq
    · rw [update_self, ← hq, hs.null]
  · rw [update_of_ne hqp, hq]

theorem record (fd' : ℕ) : s'.record fd' = if fd' = fd then some r else s.record fd' := by
  rw [Crt.record, hin.ptr]
  by_cases hfd : fd' = fd
  · rw [if_pos hfd, hfd, update_self, bind_some, hin.heap, update_self]
  · rw [if_neg hfd, update_of_ne hfd, Crt.record]
    cases hq : s.ptr fd' with
    | none => rfl
    | some q =>
      obtain ⟨r', hr'⟩ := hs.live fd' q hq
      rw [bind_some, bind_some, hr', hin.heap_old hs hr']

theorem parentOf (fd' : ℕ) : s'.parentOf fd' = if fd' = fd then r.parent else s.parentOf fd' := by
  rw [Crt.parentOf, hin.record hs]
  by_cases hfd : fd' = fd
  · rw [if_pos hfd, if_pos hfd, bind_some]
  · rw [if_neg hfd, if_neg hfd, Crt.parentOf]

/-- **The tables stay sound.** -/
theorem sound : Sound s' := by
  have hold : ∀ {q r'}, s.heap q = some r' → s'.heap q = some r' := fun hq => hin.heap_old hs hq
  have hkeep : ∀ {fd' q}, s.ptr fd' = some q → s'.ptr fd' = some q := by
    intro fd' q h
    have hne : fd' ≠ fd := by
      rintro rfl
      rw [hin.free] at h
      cases h
    rw [hin.ptr, update_of_ne hne, h]
  have hptr' : ∀ {fd' q}, s'.ptr fd' = some q → (fd' = fd ∧ q = p) ∨ s.ptr fd' = some q := by
    intro fd' q h
    rw [hin.ptr] at h
    exact (update_eq_some h).imp (fun h => ⟨h.1, (Option.some.inj h.2).symm⟩) fun h => h.2
  have hheap' : ∀ {q r'}, s'.heap q = some r' → (q = p ∧ r = r') ∨ s.heap q = some r' := by
    intro q r' h
    rw [hin.heap] at h
    exact (update_eq_some h).imp (fun h => ⟨h.1, Option.some.inj h.2⟩) fun h => h.2
  -- only the null record is shared
  have hshared : ∀ {fd'}, s.ptr fd' = some p → p = 0 := by
    intro fd' h
    obtain ⟨r', hr'⟩ := hs.live fd' p h
    rcases hin.new with hnone | ⟨hzero, -⟩
    · rw [hnone] at hr'
      cases hr'
    · exact hzero
  have hparent : ∀ {q}, (∃ fd', s.ptr fd' = some q) ∧ (∀ q', s.heap q ≠ some (.dup q')) →
      (∃ fd', s'.ptr fd' = some q) ∧ ∀ q', s'.heap q ≠ some (.dup q') := by
    rintro q ⟨⟨fd', hq⟩, hno⟩
    refine ⟨⟨fd', hkeep hq⟩, fun q' hq' => ?_⟩
    obtain ⟨r', hr'⟩ := hs.live fd' q hq
    rw [hold hr'] at hq'
    exact hno q' (hr'.trans hq')
  have hfresh : ∀ {h}, r = .os h → h ∉ s.opened ∧ h ∉ s.closes := by
    intro h hr
    rw [← not_or]
    exact fun hh => Nat.lt_irrefl _ (Nat.lt_of_lt_of_le (hs.handles h hh) (hin.handle h hr).1)
  refine ⟨hold hs.null, ?_, ?_, ?_, ?_, ?_, ?_, ?_, ?_, ?_⟩
  · intro q hq
    have hlt := hin.lt
    have hnext := hin.next
    rw [hin.heap, update_of_ne (by omega), hs.fresh q (by omega)]
  · intro fd' q hq
    rcases hptr' hq with ⟨-, rfl⟩ | hq
    · exact ⟨r, by rw [hin.heap, update_self]⟩
    · obtain ⟨r', hr'⟩ := hs.live fd' q hq
      exact ⟨r', hold hr'⟩
  · intro fd1 fd2 q h1 h2
    rcases hptr' h1 with ⟨rfl, rfl⟩ | h1
    · rcases hptr' h2 with ⟨rfl, -⟩ | h2
      · exact .inr rfl
      · exact .inl (hshared h2)
    · rcases hptr' h2 with ⟨-, rfl⟩ | h2
      · exact .inl (hshared h1)
      · exact hs.single fd1 fd2 q h1 h2
  · intro fd' q hq
    rw [hin.parentOf hs] at hq
    split at hq
    · exact hparent (hin.parent q (Record.parent_eq_some.mp hq))
    · exact hparent (hs.parent fd' q hq)
  · intro q h hq
    rcases hheap' hq with ⟨rfl, -⟩ | hq
    · exact ⟨fd, by rw [hin.ptr, update_self]⟩
    · obtain ⟨fd', hfd'⟩ := hs.held q h hq
      exact ⟨fd', hkeep hfd'⟩
  · intro q q' h hq hq'
    rcases hheap' hq with ⟨rfl, hr⟩ | hq
    · rcases hheap' hq' with ⟨rfl, -⟩ | hq'
      · rfl
      · exact absurd (hs.handle q' h hq').1 (hfresh hr).1
    · rcases hheap' hq' with ⟨-, hr⟩ | hq'
      · exact absurd (hs.handle q h hq).1 (hfresh hr).1
      · exact hs.unique q q' h hq hq'
  · intro h hh
    rw [hin.opened, hin.closes, or_right_comm] at hh
    rcases hh with hh | hr
    · exact Nat.lt_of_lt_of_le (hs.handles h hh) hin.next
    · exact (hin.handle h hr).2
  · intro q h hq
    rw [hin.closes, hin.opened]
    rcases hheap' hq with ⟨rfl, hr⟩ | hq
    · exact ⟨.inr hr, count_eq_zero.mpr (hfresh hr).2⟩
    · exact ⟨.inl (hs.handle q h hq).1, (hs.handle q h hq).2⟩
  · intro h hh hno
    rw [hin.closes]
    rcases (hin.opened h).mp hh with hh | hr
    · exact hs.closed h hh fun q hq => hno q (hold hq)
    · exact absurd (by rw [hin.heap, update_self, hr]) (hno p)

end

end Installed

/-! ### A descriptor is free again -/

/-- **The descriptor `fd` is free, and its record `p` is gone**, which had no duplicates. -/
structure Removed (s s' : Crt) (fd p : ℕ) : Prop where
  at_ : s.ptr fd = some p
  heap : s'.heap = update s.heap p none
  ptr : s'.ptr = update s.ptr fd none
  ne_zero : p ≠ 0
  child : ∀ fd', s.parentOf fd' ≠ some p
  next : s'.next = s.next
  opened : s'.opened = s.opened
  closes : ∀ h, s'.closes.count h = s.closes.count h + if s.heap p = some (.os h) then 1 else 0

namespace Removed

section

variable (hrem : Removed s s' fd p) (hs : Sound s)
include hrem hs

theorem ne_of_ptr {fd' q : ℕ} (hfd : fd' ≠ fd) (hq : s.ptr fd' = some q) : q ≠ p := by
  rintro rfl
  exact (hs.single fd' fd q hq hrem.at_).elim hrem.ne_zero hfd

theorem record (fd' : ℕ) : s'.record fd' = if fd' = fd then none else s.record fd' := by
  rw [Crt.record, hrem.ptr, hrem.heap]
  by_cases hfd : fd' = fd
  · rw [if_pos hfd, hfd, update_self, bind_none]
  · rw [if_neg hfd, update_of_ne hfd, Crt.record]
    cases hq : s.ptr fd' with
    | none => rfl
    | some q => rw [bind_some, bind_some, update_of_ne (hrem.ne_of_ptr hs hfd hq)]

theorem parentOf (fd' : ℕ) : s'.parentOf fd' = if fd' = fd then none else s.parentOf fd' := by
  rw [Crt.parentOf, hrem.record hs]
  by_cases hfd : fd' = fd
  · rw [if_pos hfd, if_pos hfd, bind_none]
  · rw [if_neg hfd, if_neg hfd, Crt.parentOf]

/-- **The tables stay sound.** -/
theorem sound : Sound s' := by
  have hold : ∀ q, q ≠ p → s'.heap q = s.heap q := fun q hq => by rw [hrem.heap, update_of_ne hq]
  have hheap' : ∀ {q r}, s'.heap q = some r → q ≠ p ∧ s.heap q = some r := by
    intro q r hq
    rw [hrem.heap] at hq
    exact update_none_eq_some hq
  have hptr' : ∀ {fd' q}, s'.ptr fd' = some q → fd' ≠ fd ∧ s.ptr fd' = some q := by
    intro fd' q hq
    rw [hrem.ptr] at hq
    exact update_none_eq_some hq
  have hkeep : ∀ {fd' q}, q ≠ p → s.ptr fd' = some q → s'.ptr fd' = some q := by
    intro fd' q hq hfd'
    have hfd : fd' ≠ fd := by
      rintro rfl
      rw [hrem.at_, Option.some.injEq] at hfd'
      exact hq hfd'.symm
    rw [hrem.ptr, update_of_ne hfd, hfd']
  refine ⟨?_, ?_, ?_, ?_, ?_, ?_, ?_, ?_, ?_, ?_⟩
  · rw [hold 0 (Ne.symm hrem.ne_zero), hs.null]
  · intro q hq
    rw [hrem.next] at hq
    rw [hold q (by have := hs.ptr_lt hrem.at_; omega), hs.fresh q hq]
  · intro fd' q hq
    obtain ⟨hfd, hq⟩ := hptr' hq
    obtain ⟨r, hr⟩ := hs.live fd' q hq
    exact ⟨r, by rw [hold q (hrem.ne_of_ptr hs hfd hq), hr]⟩
  · intro fd1 fd2 q h1 h2
    exact hs.single fd1 fd2 q (hptr' h1).2 (hptr' h2).2
  · intro fd' q hq
    rw [hrem.parentOf hs] at hq
    split at hq
    · cases hq
    · have hqp : q ≠ p := by
        rintro rfl
        exact hrem.child fd' hq
      obtain ⟨⟨fd'', hfd''⟩, hno⟩ := hs.parent fd' q hq
      exact ⟨⟨fd'', hkeep hqp hfd''⟩, fun q' => by rw [hold q hqp]; exact hno q'⟩
  · intro q h hq
    obtain ⟨hqp, hq⟩ := hheap' hq
    obtain ⟨fd', hfd'⟩ := hs.held q h hq
    exact ⟨fd', hkeep hqp hfd'⟩
  · intro q q' h hq hq'
    exact hs.unique q q' h (hheap' hq).2 (hheap' hq').2
  · intro h hh
    rw [hrem.next]
    by_cases hph : s.heap p = some (.os h)
    · exact hs.handles h (.inl (hs.handle p h hph).1)
    · rw [hrem.opened] at hh
      refine hs.handles h (hh.imp_right fun hh => ?_)
      rw [← count_pos_iff, hrem.closes, if_neg hph] at hh
      exact count_pos_iff.mp hh
  · intro q h hq
    obtain ⟨hqp, hq⟩ := hheap' hq
    rw [hrem.opened, hrem.closes, if_neg fun hph => hqp (hs.unique q p h hq hph)]
    exact hs.handle q h hq
  · intro h hh hno
    rw [hrem.opened] at hh
    rw [hrem.closes]
    by_cases hph : s.heap p = some (.os h)
    · rw [if_pos hph, (hs.handle p h hph).2]
    · rw [if_neg hph]
      refine hs.closed h hh fun q hq => hno q ?_
      have hqp : q ≠ p := by
        rintro rfl
        exact hph hq
      rw [hold q hqp, hq]

end

end Removed

end Btos.User.Newlib.Descriptors
