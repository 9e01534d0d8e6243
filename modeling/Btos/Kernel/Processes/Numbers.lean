import Btos.Kernel.Processes.Runs
import Btos.Lib.Transition
import Mathlib.Algebra.Order.Ring.Nat

/-!
# Process numbers

The counter gives every process a number of its own, and what has ended is on record under it.

* `Sound` — **process numbers are not given twice**, a process is younger than its parent, and what is on record
  is gone;
* `sound_of_run` — **so it is after every run**.
-/

namespace Btos.Kernel.Processes

open Lib.Transition List ProcessManager

/-! ### The counter and the record -/

variable {s t : ProcessManager} {a : Act}

theorem newProcess_frame (h : s.newProcess parent = some t) :
    t.pidCounter = s.pidCounter + 1 ∧ t.ended = s.ended := by
  simp only [newProcess] at h
  split at h
  · cases h
  · cases h
    exact ⟨rfl, rfl⟩

/-- **The counter only grows.** -/
theorem pidCounter_le (h : step s a = some t) : s.pidCounter ≤ t.pidCounter := by
  by_cases ha : a.Plain
  · exact (step_plain ha h).pidCounter.ge
  · cases a with
    | newProcess parent =>
      rw [(newProcess_frame h).1]
      exact Nat.le_succ _
    | cleanup =>
      obtain ⟨p, u, -, -, hcounter, -, -⟩ := cleanup_cases h
      exact hcounter.ge
    | _ => exact absurd ⟨by simp, by simp⟩ ha

/-! ### Process numbers -/

/-- **Process numbers are not given twice**, and a process is younger than its parent. -/
structure Sound (s : ProcessManager) : Prop where
  le_counter : ∀ k p, s.find k = some p → k ≤ s.pidCounter
  parent_lt : ∀ k p, s.find k = some p → p.parent ≠ 0 → p.parent < k
  ended_le : ∀ e ∈ s.ended, e.pid ≤ s.pidCounter
  ended_gone : ∀ e ∈ s.ended, s.find e.pid = none
  ended_once : (s.ended.map Ended.pid).Nodup

theorem sound_initial : Sound .initial where
  le_counter k p h := by
    have hk := pid_of_find h
    have hp := mem_of_find?_eq_some h
    simp only [initial, mem_singleton] at hp
    subst hp
    rw [← hk]
    exact Nat.zero_le _
  parent_lt k p h hne := by
    have hp := mem_of_find?_eq_some h
    simp only [initial, mem_singleton] at hp
    subst hp
    exact absurd rfl hne
  ended_le := by simp [initial]
  ended_gone := by simp [initial]
  ended_once := by simp [initial]

theorem find_none_of_step (h : step s a = some t) (hk : k ≤ s.pidCounter) (hnone : s.find k = none) :
    t.find k = none := by
  rw [Option.eq_none_iff_forall_ne_some]
  intro q hq
  rcases step_back h k q hq with ⟨p, hp, -⟩ | ⟨p, -, -, hnew, -⟩
  · rw [hp] at hnone
    cases hnone
  · omega

theorem step_ended (h : step s a = some t) :
    t.ended = s.ended ∨ ∃ p, s.find p.pid = some p ∧ t.find p.pid = none ∧
      t.ended = s.ended ++ [⟨p.pid, p.parent, p.returnValue⟩] := by
  by_cases ha : a.Plain
  · exact .inl (step_plain ha h).ended
  · cases a with
    | newProcess parent => exact .inl (newProcess_frame h).2
    | cleanup =>
      obtain ⟨p, u, hp, -, -, hended, hfind⟩ := cleanup_cases h
      exact .inr ⟨p, hp, by rw [hfind, if_pos rfl], hended⟩
    | _ => exact absurd ⟨by simp, by simp⟩ ha

theorem sound_step (hs : Sound s) (h : step s a = some t) : Sound t := by
  have hcounter := pidCounter_le h
  refine ⟨fun k q hq => ?_, fun k q hq hne => ?_, fun e he => ?_, fun e he => ?_, ?_⟩
  · rcases step_back h k q hq with ⟨p, hp, -⟩ | ⟨p, rfl, -, hnew, -⟩
    · exact (hs.le_counter k p hp).trans hcounter
    · exact hnew.trans_le (newProcess_frame h).1.ge
  · rcases step_back h k q hq with ⟨p, hp, he⟩ | ⟨p, -, hp, hnew, rfl⟩
    · rw [he.pid.2] at hne ⊢
      exact hs.parent_lt k p hp hne
    · have hle := hs.le_counter _ _ hp
      change p.pid < k
      omega
  · rcases step_ended h with hsame | ⟨p, hp, -, hnew⟩
    · exact (hs.ended_le e (hsame ▸ he)).trans hcounter
    · rw [hnew, mem_append, mem_singleton] at he
      rcases he with he | rfl
      · exact (hs.ended_le e he).trans hcounter
      · exact (hs.le_counter _ _ hp).trans hcounter
  · rcases step_ended h with hsame | ⟨p, -, hgone, hnew⟩
    · rw [hsame] at he
      exact find_none_of_step h (hs.ended_le e he) (hs.ended_gone e he)
    · rw [hnew, mem_append, mem_singleton] at he
      rcases he with he | rfl
      · exact find_none_of_step h (hs.ended_le e he) (hs.ended_gone e he)
      · exact hgone
  · rcases step_ended h with hsame | ⟨p, hp, -, hnew⟩
    · rw [hsame]
      exact hs.ended_once
    · rw [hnew, map_append, map_singleton]
      refine nodup_append.mpr ⟨hs.ended_once, nodup_singleton _, fun k hk j hj hkj => ?_⟩
      obtain ⟨e, he, rfl⟩ := mem_map.mp hk
      rw [mem_singleton] at hj
      subst hj
      have hgone := hs.ended_gone e he
      rw [hkj, hp] at hgone
      cases hgone

/-- **After every run** process numbers are sound. -/
theorem sound_of_run (h : exec step .initial as = some s) : Sound s :=
  (Reach.of_exec step anyStep as .initial h (guarded_anyStep step as _)).invariant Sound sound_initial
    fun _ _ _ hs _ ht => sound_step hs ht

end Btos.Kernel.Processes
