import Btos.Kernel.Processes.Numbers
import Mathlib.Data.List.Induction

/-!
# Permissions over runs

What has become of a process's permissions after a run of the process manager: which bits have been set for it,
and what the processes it has made can do.

* `given` — the bits that the calls of a run have set for a process, and `getPermissions_of_run`: **they are its
  mask**;
* `CreationOk` — **the condition on making a process**: the creator has `SuperPerm`.  A new process has every
  permission, since the constructor copies none of its creator's masks.
-/

namespace Btos.Kernel.Processes

open Util List ProcessManager
open Lib.Transition

/-! ### The bits that have been set -/

def Act.given (a : Act) (k : ℕ) (ext : BitVec 16) : BitVec 64 :=
  match a with
  | .setPermissions e pmask pid known =>
      if e = ext ∧ pid = k ∧ (e = 0#16 ∨ known = true) then pmask else 0#64
  | _ => 0#64

def given (as : List Act) (k : ℕ) (ext : BitVec 16) : BitVec 64 :=
  as.foldl (fun m a => m ||| a.given k ext) 0#64

theorem given_append_singleton (as : List Act) (a : Act) (k : ℕ) (ext : BitVec 16) :
    given (as ++ [a]) k ext = given as k ext ||| a.given k ext := by
  simp [given]

theorem setPermissions_eq_call {s : ProcessManager} {ext : BitVec 16} {pmask : BitVec 64} {pid : ℕ}
    {known : Bool} (hext : ext = 0#16 ∨ known = true) :
    s.setPermissions ext pmask pid known = s.call pid fun proc => proc.addPermissions ext pmask := by
  have hgo : ¬ (ext ≠ 0#16 ∧ (!known) = true) := by
    rintro ⟨he, hknown⟩
    rcases hext with he' | rfl
    · exact he he'
    · cases hknown
  rw [setPermissions, if_neg hgo]

variable {s t : ProcessManager} {k : ℕ} {a : Act}

theorem given_eq_zero_of_find (h : step s a = some t) (hk : s.find k = none) (ext : BitVec 16) :
    a.given k ext = 0#64 := by
  cases a with
  | setPermissions e pmask pid known =>
    simp only [Act.given]
    split
    · rename_i hcond
      obtain ⟨rfl, rfl, hext⟩ := hcond
      rw [step, setPermissions_eq_call hext] at h
      obtain ⟨p, hp⟩ := exists_of_callM h
      rw [hk] at hp
      cases hp
    · rfl
  | _ => rfl

/-- **One call** adds its bits to the mask of its process. -/
theorem getPermissions_setPermissions {e : BitVec 16} {pmask : BitVec 64} {pid : ℕ} {known : Bool}
    (h : s.setPermissions e pmask pid known = some t) {q : Process} (hq : t.find k = some q) :
    ∃ p, s.find k = some p ∧ ∀ ext,
      q.getPermissions ext = p.getPermissions ext ||| (Act.setPermissions e pmask pid known).given k ext := by
  by_cases hext : e = 0#16 ∨ known = true
  · rw [setPermissions_eq_call hext] at h
    rw [find_callM (by intro p q hpq; cases hpq; rfl) h k] at hq
    by_cases hk : k = pid
    · subst hk
      rw [if_pos rfl] at hq
      obtain ⟨p, hp, hpq⟩ := Option.bind_eq_some_iff.mp hq
      cases hpq
      refine ⟨p, hp, fun ext => ?_⟩
      rw [getPermissions_addPermissions]
      by_cases he : e = ext
      · subst he
        simp [Act.given, hext]
      · simp [Act.given, he]
    · rw [if_neg hk] at hq
      exact ⟨q, hq, fun ext => by simp [Act.given, Ne.symm hk]⟩
  · have hno : e ≠ 0#16 ∧ (!known) = true := by
      rw [not_or] at hext
      exact ⟨hext.1, by simpa using hext.2⟩
    rw [setPermissions, if_pos hno] at h
    cases h
    exact ⟨q, hq, fun ext => by simp [Act.given, hext]⟩

theorem permissions_of_evolves (h : Evolves s a p q)
    (ha : ∀ e pmask pid known, a ≠ .setPermissions e pmask pid known) : q.permissions = p.permissions := by
  cases h with
  | same hsame => exact hsame.permissions
  | queried _ child =>
    simp only [Process.getChildReturnValue]
    split <;> rfl
  | reported => rfl
  | permitted _ e pmask known hext => exact absurd rfl (ha e pmask p.pid known)
  | equipped => rfl

/-- **One act**: the mask of a process gets the bits the act sets for it; a new process has none. -/
theorem getPermissions_step (h : step s a = some t) (hq : t.find k = some q) :
    (∃ p, s.find k = some p ∧ ∀ ext, q.getPermissions ext = p.getPermissions ext ||| a.given k ext) ∨
      (k = s.pidCounter + 1 ∧ ∀ ext, q.getPermissions ext = 0#64 ∧ a.given k ext = 0#64) := by
  cases a with
  | setPermissions e pmask pid known => exact .inl (getPermissions_setPermissions h hq)
  | _ =>
    rcases step_back h k q hq with ⟨p, hp, he⟩ | ⟨p, ha, -, hk, rfl⟩
    · refine .inl ⟨p, hp, fun ext => ?_⟩
      have hperm : q.permissions = p.permissions := permissions_of_evolves he (by simp)
      simp [Process.getPermissions, hperm, Act.given]
    · exact .inr ⟨hk, fun ext => ⟨rfl, rfl⟩⟩

/-- **After every run the mask of a process is what the run has set for it.** -/
theorem getPermissions_of_run (h : exec step .initial as = some s) :
    (∀ k ext, s.pidCounter < k → given as k ext = 0#64) ∧
      ∀ k p, s.find k = some p → ∀ ext, p.getPermissions ext = given as k ext := by
  -- the last act of the run is taken off
  induction as using List.reverseRecOn generalizing s with
  | nil =>
    cases h
    refine ⟨fun k ext _ => rfl, fun k p hp ext => ?_⟩
    have hmem := mem_of_find?_eq_some hp
    simp only [initial, mem_singleton] at hmem
    subst hmem
    rfl
  | append_singleton as a ih =>
    rw [exec_append] at h
    obtain ⟨r, hr, hlast⟩ := Option.bind_eq_some_iff.mp h
    obtain ⟨u, hu, hs⟩ := Option.bind_eq_some_iff.mp hlast
    cases hs
    obtain ⟨hbeyond, hmasks⟩ := ih hr
    have hcounter := pidCounter_le hu
    have hsound := sound_of_run hr
    refine ⟨fun k ext hk => ?_, fun k q hq ext => ?_⟩
    · have hnone : r.find k = none := by
        rw [Option.eq_none_iff_forall_ne_some]
        intro p hp
        have := hsound.le_counter k p hp
        omega
      rw [given_append_singleton, hbeyond k ext (by omega), given_eq_zero_of_find hu hnone ext]
      rfl
    · rw [given_append_singleton]
      rcases getPermissions_step hu hq with ⟨p, hp, hpq⟩ | ⟨hk, hzero⟩
      · rw [hpq ext, hmasks k p hp ext]
      · rw [(hzero ext).1, (hzero ext).2, hbeyond k ext (by omega)]
        rfl

/-! ### Permissions that are missing -/

theorem Grows.refl (p : Process) : Grows p p := fun _ _ h => h

theorem Grows.trans (h₁ : Grows p q) (h₂ : Grows q r) : Grows p r :=
  fun ext i h => h₂ ext i (h₁ ext i h)

/-- **The masks of a process grow** along every run. -/
theorem grows_of_run (hs : Sound s) (hp : s.find k = some p) (bs : List Act)
    (h : exec step s bs = some t) (hq : t.find k = some q) : Grows p q := by
  induction bs generalizing s p with
  | nil =>
    cases h
    rw [hp] at hq
    cases hq
    exact .refl q
  | cons a bs ih =>
    obtain ⟨u, hu, hrest⟩ := Option.bind_eq_some_iff.mp h
    have hk := hs.le_counter k p hp
    cases hfind : u.find k with
    | none =>
      -- the number stays unused
      have hgone : t.find k = none := by
        have hreach := Reach.of_exec step anyStep bs u hrest (guarded_anyStep step bs u)
        refine (hreach.invariant (fun v => k ≤ v.pidCounter ∧ v.find k = none)
          ⟨hk.trans (pidCounter_le hu), hfind⟩ ?_).2
        intro v b w hv _ hw
        exact ⟨hv.1.trans (pidCounter_le hw), find_none_of_step hw hv.1 hv.2⟩
      rw [hgone] at hq
      cases hq
    | some r =>
      have hpr : Grows p r := by
        rcases getPermissions_step hu hfind with ⟨p', hp', hmask⟩ | ⟨hnew, -⟩
        · rw [hp] at hp'
          cases hp'
          intro ext i hi
          rw [hmask ext, BitVec.getLsbD_or, hi, Bool.true_or]
        · omega
      exact hpr.trans (ih (sound_step hs hu) hfind hrest)

/-! ### Processes that are made -/

/-- **The condition on making a process**: the creator has `SuperPerm`. -/
def CreationOk (s : ProcessManager) (a : Act) : Prop :=
  ∀ parent p, a = .newProcess parent → s.find parent = some p → hasPermission 0#16 superPerm p = true

/-- The processes made in a run, each with its creator. -/
def creations (s : ProcessManager) : List Act → List (ℕ × ℕ)
  | [] => []
  | a :: as =>
      match step s a with
      | none => []
      | some t =>
          match a with
          | .newProcess parent => (s.pidCounter + 1, parent) :: creations t as
          | _ => creations t as

/-- **`d` has been made in the run by `k`**, or by a process that has. -/
def Descends (s : ProcessManager) (as : List Act) (k d : ℕ) : Prop :=
  Relation.TransGen (fun x y => (y, x) ∈ creations s as) k d

theorem creations_cons (h : step s a = some t) (as : List Act) (c k : ℕ) : (c, k) ∈ creations s (a :: as) ↔
      (a = .newProcess k ∧ c = s.pidCounter + 1) ∨ (c, k) ∈ creations t as := by
  cases a with
  | newProcess parent =>
    simp only [creations, h, mem_cons, Prod.mk.injEq, Act.newProcess.injEq]
    constructor
    · rintro (⟨hc, hk⟩ | hrest)
      · exact .inl ⟨hk.symm, hc⟩
      · exact .inr hrest
    · rintro (⟨hk, hc⟩ | hrest)
      · exact .inl ⟨hc, hk.symm⟩
      · exact .inr hrest
  | _ => simp [creations, h]

theorem Descends.first (h : Descends s as k d) : ∃ c, (c, k) ∈ creations s as := by
  induction h with
  | single hc => exact ⟨_, hc⟩
  | tail _ _ ih => exact ih

theorem newProcess_child (hs : Sound s) (hp : s.find parent = some p)
    (h : step s (.newProcess parent) = some t) :
    t.find (s.pidCounter + 1) = some (child p (s.pidCounter + 1)) := by
  simp only [step, newProcess, hp, Option.some.injEq] at h
  subst h
  have hnone : s.find (s.pidCounter + 1) = none := by
    rw [Option.eq_none_iff_forall_ne_some]
    intro q hq
    have := hs.le_counter _ _ hq
    omega
  rw [find] at hnone ⊢
  rw [Lib.Table.find?_append_singleton, hnone]
  exact if_pos rfl

theorem hasPermission_child (p : Process) (k : ℕ) (ext : BitVec 16) (i : ℕ) :
    hasPermission ext i (child p k) = true := by
  by_contra hne
  have hfalse : hasPermission ext i (child p k) = false := by simpa using hne
  have hbit := ((hasPermission_eq_false_iff _ _ _).mp hfalse).2
  simp [child, Process.getPermissions] at hbit

theorem no_creations (hs : Sound s) (hp : s.find k = some p)
    (hmissing : hasPermission ext i p = false) (bs : List Act) (h : exec step s bs = some t)
    (hok : Guarded step CreationOk s bs) (c : ℕ) : (c, k) ∉ creations s bs := by
  -- along the run, the process lacks the permission or is gone
  have hlacks : ∀ (bs : List Act) (s : ProcessManager), Sound s → k ≤ s.pidCounter →
      (∀ q, s.find k = some q → hasPermission ext i q = false) → exec step s bs = some t →
      Guarded step CreationOk s bs → (c, k) ∉ creations s bs := by
    intro bs
    induction bs with
    | nil => simp [creations]
    | cons a bs ih =>
      intro s hs hk hall hrun hguard
      obtain ⟨u, hu, hrest⟩ := Option.bind_eq_some_iff.mp hrun
      obtain ⟨hstep, hguard⟩ := hguard
      rw [hu] at hguard
      rw [creations_cons hu, not_or]
      constructor
      · rintro ⟨rfl, -⟩
        simp only [step, newProcess] at hu
        split at hu
        · cases hu
        · rename_i q hq
          have hsuper := hasPermission_of_superPerm (hstep k q rfl hq) ext i
          rw [hall q hq] at hsuper
          cases hsuper
      · refine ih u (sound_step hs hu) (hk.trans (pidCounter_le hu)) (fun r hr => ?_) hrest hguard
        rcases step_back hu k r hr with ⟨q, hq, -⟩ | ⟨-, -, -, hnew, -⟩
        · exact (grows_of_run hs hq [a] (by rw [exec, hu]; rfl) hr).missing (hall q hq)
        · omega
  refine hlacks bs s hs (hs.le_counter k p hp) (fun q hq => ?_) h hok
  rw [hp] at hq
  cases hq
  exact hmissing

/-! ### The result -/

/-- **Permissions over every run.**

* A test is right exactly under its condition.
* A permission that a process lacks it will always lack.
* A process lacks, for ever, what its creator lacked when it was made, exactly if the creator has `SuperPerm`.
* While only such processes make processes, no descendant has what a process lacks. -/
theorem permissions_right (as : List Act) (s : ProcessManager) (h : exec step .initial as = some s) :
    (∀ k proc, s.find k = some proc → ∀ ext p, p < 64 → ((hasPermission ext p proc = false ↔
          (given as k ext).getLsbD p = true ∧ (given as k 0#16).getLsbD superPerm = true) ↔
        TestOk proc ext p)) ∧
    (∀ bs t, exec step s bs = some t → ∀ k proc later, s.find k = some proc → t.find k = some later →
      ∀ ext p, hasPermission ext p proc = false → hasPermission ext p later = false) ∧
    (∀ parent proc, s.find parent = some proc →
      ((∀ bs t later, exec step s (.newProcess parent :: bs) = some t → t.find (s.pidCounter + 1) = some later →
          ∀ ext p, p < 64 → hasPermission ext p later = true → hasPermission ext p proc = true) ↔
        CreationOk s (.newProcess parent))) ∧ (∀ bs t, exec step s bs = some t → Guarded step CreationOk s bs →
      ∀ k proc, s.find k = some proc → ∀ ext p, hasPermission ext p proc = false →
      ∀ d later, Descends s bs k d → t.find d = some later → hasPermission ext p later = false) := by
  have hs := sound_of_run h
  have hmasks := (getPermissions_of_run h).2
  refine ⟨fun k proc hk ext p hp => ?_, fun bs t hrun k proc later hk hlater ext p hmissing => ?_,
    fun parent proc hproc => ⟨fun hall => ?_, fun hok bs t later _ _ ext p _ _ => ?_⟩,
    fun bs t hrun hok k proc hk ext p hmissing d later hd _ => ?_⟩
  · rw [← hmasks k proc hk ext, ← hmasks k proc hk 0#16]
    exact hasPermission_right_iff proc ext hp
  · exact (grows_of_run hs hk bs hrun hlater).missing hmissing
  · -- the new process has `SuperPerm`
    have hnew : ∃ t, step s (.newProcess parent) = some t := by
      simp [step, newProcess, hproc]
    obtain ⟨t, ht⟩ := hnew
    intro parent' p hparent hp
    cases hparent
    rw [hproc] at hp
    cases hp
    exact hall [] t _ (by rw [exec, ht]; rfl) (newProcess_child hs hproc ht) 0#16 superPerm (by decide)
      (hasPermission_child _ _ _ _)
  · exact hasPermission_of_superPerm (hok parent proc rfl hproc) ext p
  · -- the first of the line would have been made by a process that lacks something
    obtain ⟨c, hc⟩ := hd.first
    exact absurd hc (no_creations hs hk hmissing bs hrun hok c)

/-- A process without `SuperPerm` and the permission 5. -/
def denyRun : List Act := [.newProcess 0, .setPermissions 0#16 0x21#64 1 false]

/-- **Permission 5 is missing**, as it should be: it is tested as it has been set. -/
theorem permissions_right_deny :
    ∃ s proc, exec step .initial denyRun = some s ∧ s.find 1 = some proc ∧ hasPermission 0#16 5 proc = false := by
  have hrun : ((exec step .initial denyRun).bind fun s => s.find 1).isSome = true := by decide
  obtain ⟨proc, hproc⟩ := Option.isSome_iff_exists.mp hrun
  obtain ⟨s, hs, hproc⟩ := Option.bind_eq_some_iff.mp hproc
  have hright := ((permissions_right denyRun s hs).1 1 proc hproc 0#16 5 (by decide)).mpr (.inr trivial)
  exact ⟨s, proc, hs, hproc, hright.mpr (by decide)⟩

/-- **Permission 31 is missing although its bit has not been set** (bit 40 has), **and permission 5, which
process 1 lacks, is won by making process 2.** -/
theorem permissions_wrong :
    (exec step .initial [.newProcess 0, .setPermissions 0#16 0x10000000001#64 1 false]).map (fun s =>
        ((s.find 1).map (hasPermission 0#16 31), (given [.newProcess 0,
          .setPermissions 0#16 0x10000000001#64 1 false] 1 0#16).getLsbD 31)) = some (some false, false) ∧
      (exec step .initial (denyRun ++ [.newProcess 1])).map (fun s =>
        ((s.find 1).map (hasPermission 0#16 5), (s.find 2).map (hasPermission 0#16 5))) =
        some (some false, some true) := by
  constructor <;> decide

end Btos.Kernel.Processes
