import Mathlib.Data.List.Nodup
import Btos.User.Newlib.DescriptorTables

/-!
# The counts of duplicates

The table of duplicates is a table of reference counts: an entry for each record that has duplicates.
Here is how it changes with one call; which descriptors there are is in `Btos.User.Newlib.DescriptorRuns`.

* `Counts` — **the count of every entry is the number of its duplicates**;
* `Counts.put` — **an entry is written or cleared** when the number of its duplicates changes.
-/

namespace Btos.User.Newlib.Descriptors

open Lib.Slots Function List Option Prod

/-- **The counts are right**: `refs` has a pair for every descriptor that is a duplicate. -/
structure Counts (s : Crt) (refs : List (ℕ × ℕ)) : Prop where
  nodup : refs.Nodup
  pairs : ∀ fd q, (fd, q) ∈ refs ↔ s.parentOf fd = some q
  entries : ∀ i d, slot s.dups i = some d →
    d = ⟨d.vh, (refs.map snd).count d.vh, false⟩ ∧ 0 < (refs.map snd).count d.vh
  found : ∀ q, 0 < (refs.map snd).count q → ∃ i d, slot s.dups i = some d ∧ d.vh = q
  single : ∀ i j d e, slot s.dups i = some d → slot s.dups j = some e → d.vh = e.vh → i = j

namespace Counts

variable {s s' : Crt} {refs : List (ℕ × ℕ)}

section

variable (hc : Counts s refs)
include hc

theorem same (hparent : ∀ fd, s'.parentOf fd = s.parentOf fd) (hdups : s'.dups = s.dups) : Counts s' refs where
  nodup := hc.nodup
  pairs fd q := by rw [hparent, hc.pairs]
  entries := hdups ▸ hc.entries
  found := hdups ▸ hc.found
  single := hdups ▸ hc.single

theorem entry (hq : s.parentOf fd = some q) : ∃ i d, slot s.dups i = some d ∧ d.vh = q :=
  hc.found q (count_pos_iff.mpr (mem_map.mpr ⟨(fd, q), (hc.pairs fd q).mpr hq, rfl⟩))

theorem others (hi : slot s.dups i = some d) :
    (∀ e, slot s.dups i = some e → e.vh = d.vh) ∧ ∀ j e, j ≠ i → slot s.dups j = some e → e.vh ≠ d.vh := by
  refine ⟨fun e he => ?_, fun j e hj he hvh => hj (hc.single j i e d he hi hvh)⟩
  rw [hi, some.injEq] at he
  rw [he]

/-- **The entry of `v` is written or cleared**, with other references. -/
theorem put {refs' : List (ℕ × ℕ)} {o : Option Dup} (hnodup : refs'.Nodup)
    (hpairs : ∀ fd q, (fd, q) ∈ refs' ↔ s'.parentOf fd = some q)
    (hrest : ∀ q, q ≠ v → (refs'.map snd).count q = (refs.map snd).count q)
    (ho : o = if (refs'.map snd).count v = 0 then none else some ⟨v, (refs'.map snd).count v, false⟩)
    (hi : (∀ e, slot s.dups i = some e → e.vh = v) ∧ ∀ j e, j ≠ i → slot s.dups j = some e → e.vh ≠ v)
    (hslot : slot s'.dups = update (slot s.dups) i o) : Counts s' refs' := by
  have hnew : ∀ {e}, o = some e → e = ⟨v, (refs'.map snd).count v, false⟩ ∧ 0 < (refs'.map snd).count v := by
    intro e he
    rw [ho] at he
    split at he
    · cases he
    · exact ⟨(some.inj he).symm, by omega⟩
  refine ⟨hnodup, hpairs, ?_, ?_, ?_⟩
  · intro j e hj
    rw [hslot] at hj
    rcases update_eq_some hj with ⟨-, heq⟩ | ⟨hji, hj⟩
    · obtain ⟨rfl, hpos⟩ := hnew heq
      exact ⟨rfl, hpos⟩
    · rw [hrest _ (hi.2 j e hji hj)]
      exact hc.entries j e hj
  · intro q hq
    rw [hslot]
    by_cases hqv : q = v
    · rw [hqv] at hq ⊢
      rw [if_neg (Nat.ne_of_gt hq)] at ho
      exact ⟨i, _, by rw [update_self, ho], rfl⟩
    · rw [hrest q hqv] at hq
      obtain ⟨j, d, hj, rfl⟩ := hc.found q hq
      have hji : j ≠ i := by
        rintro rfl
        exact hqv (hi.1 d hj)
      exact ⟨j, d, by rw [update_of_ne hji, hj], rfl⟩
  · intro j k e e' hj hk hvh
    rw [hslot] at hj hk
    rcases update_eq_some hj with ⟨hji, heq⟩ | ⟨hji, hj⟩
    · rcases update_eq_some hk with ⟨hki, -⟩ | ⟨hki, hk⟩
      · rw [hji, hki]
      · rw [(hnew heq).1] at hvh
        exact absurd hvh.symm (hi.2 k e' hki hk)
    · rcases update_eq_some hk with ⟨-, heq⟩ | ⟨-, hk⟩
      · rw [(hnew heq).1] at hvh
        exact absurd hvh (hi.2 j e hji hj)
      · exact hc.single j k e e' hj hk hvh

/-- **One duplicate more.** -/
theorem dup (hfree : s.parentOf fd = none)
    (hparent : ∀ fd', s'.parentOf fd' = if fd' = fd then some v else s.parentOf fd')
    (hdups : s'.dups = countUp (dupEntry s.dups v).1 (dupEntry s.dups v).2) : Counts s' ((fd, v) :: refs) := by
  have hnew : (fd, v) ∉ refs := by
    rw [hc.pairs, hfree]
    simp
  have hrefs : ∀ fd' q, (fd', q) ∈ (fd, v) :: refs ↔ s'.parentOf fd' = some q := by
    intro fd' q
    rw [mem_cons, hparent, hc.pairs]
    by_cases hfd : fd' = fd
    · subst hfd
      rw [hfree]
      simp [eq_comm]
    · simp [hfd]
  have hother : ∀ q, q ≠ v → (((fd, v) :: refs).map snd).count q = (refs.map snd).count q := by
    intro q hq
    rw [map_cons, count_cons_of_ne (Ne.symm hq)]
  have hput := fun {i o} => hc.put (i := i) (o := o) (nodup_cons.mpr ⟨hnew, hc.nodup⟩) hrefs hother
  rw [map_cons, count_cons_self, if_neg (Nat.succ_ne_zero _)] at hput
  obtain ⟨i, ⟨d, hi, rfl, hslot⟩ | ⟨hi, hno, hslot⟩⟩ := dupEntry_spec s.dups v
  · refine hput ?_ (hc.others hi) (hdups ▸ hslot)
    rw [(hc.entries i d hi).1]
  · have hzero : (refs.map snd).count v = 0 := by
      by_contra hpos
      obtain ⟨j, d, hj, hd⟩ := hc.found v (Nat.pos_of_ne_zero hpos)
      exact hno j d hj hd
    refine hput (by rw [hzero]) ⟨fun e he => ?_, fun j e _ he => hno j e he⟩ (hdups ▸ hslot)
    rw [hi] at he
    cases he

/-- **One duplicate less.** -/
theorem close (hq : s.parentOf fd = some q)
    (hparent : ∀ fd', s'.parentOf fd' = if fd' = fd then none else s.parentOf fd') (hi : slot s.dups i = some d)
    (hd : d.vh = q) (hslot : slot s'.dups = update (slot s.dups) i
      (if d.count - 1 = 0 then none else some { d with count := d.count - 1 })) : Counts s' (refs.erase (fd, q)) := by
  subst hd
  have hmem : (fd, d.vh) ∈ refs := (hc.pairs fd d.vh).mpr hq
  have hperm : (refs.map snd).Perm (d.vh :: (refs.erase (fd, d.vh)).map snd) := (perm_cons_erase hmem).map snd
  have hcount : ((refs.erase (fd, d.vh)).map snd).count d.vh = d.count - 1 := by
    rw [(hc.entries i d hi).1, hperm.count_eq, count_cons_self, Nat.add_sub_cancel]
  refine hc.put (hc.nodup.erase _) ?_ ?_ ?_ (hc.others hi) hslot
  · intro fd' v
    rw [hc.nodup.mem_erase_iff, hparent, hc.pairs]
    by_cases hfd : fd' = fd
    · subst hfd
      rw [hq]
      simp [eq_comm]
    · simp [hfd]
  · intro v hv
    rw [hperm.count_eq v, count_cons_of_ne (Ne.symm hv)]
  · rw [hcount, (hc.entries i d hi).1]

end

end Counts

end Btos.User.Newlib.Descriptors
