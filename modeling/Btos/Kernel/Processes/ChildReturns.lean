import Btos.Kernel.Processes.Numbers

/-!
# The exit codes of children

When a process is cleaned up, its exit code goes into its parent's map `childReturns`, where
`GetChildReturnValue` is to find it.  The lookup tests for the child's number and reads under the parent's own.

* `exitCode` — **what a parent should be told**: the exit code of a child that has ended, otherwise zero;
* `childReturn_right_iff` — **the answer is right exactly if the child has not ended or its exit code is zero**;
  asking never changes an answer.
-/

namespace Btos.Kernel.Processes

open Util List Option ProcessManager Process
open Lib.Transition

/-! ### What the parent should be told -/

/-- **The exit code of a child that has ended**, and zero for any other. -/
def exitCode (s : ProcessManager) (parent child : ℕ) : ℤ :=
  match s.ended.find? fun e => e.pid = child ∧ e.parent = parent with
  | some e => e.returnValue
  | none => 0

/-- **The condition on a question**: the child has not ended, or has ended with exit code zero. -/
def QuestionOk (s : ProcessManager) (parent child : ℕ) : Prop :=
  ∀ e ∈ s.ended, e.pid = child → e.parent = parent → e.returnValue = 0

theorem exitCode_eq_zero_iff (hs : Sound s) (parent child : ℕ) :
    exitCode s parent child = 0 ↔ QuestionOk s parent child := by
  cases hfind : s.ended.find? fun e => e.pid = child ∧ e.parent = parent with
  | none =>
    rw [find?_eq_none] at hfind
    simp only [exitCode, QuestionOk]
    constructor
    · intro _ e he hc hp
      have hno : e.pid = child → ¬ e.parent = parent := by simpa using hfind e he
      exact absurd hp (hno hc)
    · intro _
      split
      · rename_i e he
        exact absurd (find?_some he) (hfind e (mem_of_find?_eq_some he))
      · rfl
  | some e =>
    have he := mem_of_find?_eq_some hfind
    have hmatch : e.pid = child ∧ e.parent = parent := by simpa using find?_some hfind
    simp only [exitCode, hfind, QuestionOk]
    constructor
    · intro hzero d hd hc _
      -- the numbers on record are different
      have hde : d = e :=
        inj_on_of_nodup_map hs.ended_once hd he (hc.trans hmatch.1.symm)
      rw [hde]
      exact hzero
    · intro h
      exact h e he hmatch.1 hmatch.2

/-! ### What it is told -/

/-- Under its own number a process has no exit code but zero. -/
def OwnKeyZero (p : Process) : Prop := ∀ v, p.childReturns.find p.pid = some v → v = 0

theorem getChildReturnValue_eq_zero (h : OwnKeyZero p) (child : ℕ) : (p.getChildReturnValue child).1 = 0 := by
  simp only [getChildReturnValue]
  split
  · simp only [Map.index]
    split
    · rename_i v hv
      exact h v hv
    · rfl
  · rfl

theorem ownKeyZero_getChildReturnValue (h : OwnKeyZero p) (child : ℕ) :
    OwnKeyZero (p.getChildReturnValue child).2 := by
  simp only [getChildReturnValue]
  split
  · simp only [Map.index]
    split
    · exact h
    · intro v hv
      simpa using hv.symm
  · exact h

/-- **A process is no child of itself**, so its own key is never written. -/
theorem ownKeyZero_step (hs : Sound s)
    (h : ∀ k p, s.find k = some p → OwnKeyZero p) (hstep : step s a = some t) :
    ∀ k q, t.find k = some q → OwnKeyZero q := by
  intro k q hq
  rcases step_back hstep k q hq with ⟨p, hp, he⟩ | ⟨p, -, -, -, rfl⟩
  · have hzero := h k p hp
    cases he with
    | same hsame =>
      intro v hv
      rw [hsame.childReturns, hsame.pid] at hv
      exact hzero v hv
    | queried _ child => exact ownKeyZero_getChildReturnValue hzero child
    | reported _ r hr hparent hne =>
      intro v hv
      have hlt : r.parent < r.pid := hs.parent_lt r.pid r hr hne
      have hkey : r.pid ≠ p.pid := by omega
      rw [setChildReturnValue, Map.find_set_ne _ hkey] at hv
      exact hzero v hv
    | permitted ext pmask known hext | equipped env ha => exact hzero
  · intro v hv
    simp [child] at hv

theorem ownKeyZero_of_run (h : exec step .initial as = some s) : ∀ k p, s.find k = some p → OwnKeyZero p := by
  have hreach := Reach.of_exec step anyStep as .initial h (guarded_anyStep step as _)
  refine (hreach.invariant (fun s => Sound s ∧ ∀ k p, s.find k = some p → OwnKeyZero p) ?_ ?_).2
  · refine ⟨sound_initial, fun k p hp v hv => ?_⟩
    have hmem := mem_of_find?_eq_some hp
    simp only [initial, mem_singleton] at hmem
    subst hmem
    simp [createKernelProcess] at hv
  · intro s a t hs _ ht
    exact ⟨sound_step hs.1 ht, ownKeyZero_step hs.1 hs.2 ht⟩

/-! ### Asking again -/

def answer (s : ProcessManager) (pid child : ℕ) : Option ℤ :=
  (s.find pid).map fun p => (p.getChildReturnValue child).1

/-- **Asking changes no answer**, although it may insert the process's own number. -/
theorem getChildReturnValue_after (p : Process) (c d : ℕ) :
    ((p.getChildReturnValue c).2.getChildReturnValue d).1 = (p.getChildReturnValue d).1 := by
  by_cases hc : p.childReturns.hasKey c = true
  · cases hown : p.childReturns.find p.pid with
    | some v =>
      have hsecond : (p.getChildReturnValue c).2 = p := by
        simp [getChildReturnValue, Map.index, hc, hown]
      rw [hsecond]
    | none =>
      have hsecond : (p.getChildReturnValue c).2 =
          { p with childReturns := p.childReturns.set p.pid 0 } := by
        simp [getChildReturnValue, Map.index, hc, hown]
      have hfirst : (p.getChildReturnValue d).1 = 0 := by
        simp only [getChildReturnValue, Map.index, hown]
        split <;> rfl
      rw [hsecond, hfirst]
      simp only [getChildReturnValue, Map.index, Map.find_set_self]
      split <;> rfl
  · have hsecond : (p.getChildReturnValue c).2 = p := by
      simp [getChildReturnValue, hc]
    rw [hsecond]

theorem answer_after (h : step s (.getChildReturnValue k c) = some t)
    (j d : ℕ) : answer t j d = answer s j d := by
  simp only [answer, find_callM
    (by intro p q hpq; cases hpq; exact pid_getChildReturnValue p c) h j]
  by_cases hj : j = k
  · subst hj
    rw [if_pos rfl]
    cases s.find j with
    | none => rfl
    | some p => exact congrArg some (getChildReturnValue_after p c d)
  · rw [if_neg hj]

/-! ### The result -/

/-- **After every run, the answer is right exactly if the child has not ended or its exit code is zero**, and
asking changes no answer. -/
theorem childReturn_right_iff (as : List Act) (s : ProcessManager) (h : exec step .initial as = some s)
    (k : ℕ) (p : Process) (hp : s.find k = some p) (child : ℕ) :
    ((p.getChildReturnValue child).1 = exitCode s k child ↔ QuestionOk s k child) ∧
      ∀ t, step s (.getChildReturnValue k child) = some t → ∀ j d, answer t j d = answer s j d := by
  constructor
  · rw [getChildReturnValue_eq_zero (ownKeyZero_of_run h k p hp) child,
      ← exitCode_eq_zero_iff (sound_of_run h) k child]
    exact eq_comm
  · intro t ht
    exact answer_after ht

/-- A child of a child of the kernel that ends with an exit code. -/
def exitRun (value : ℤ) : List Act :=
  [.newProcess 0, .newProcess 1, .setReturnValue 2 value, .endProcess 2, .collect, .cleanup]

/-- **A child that ends with exit code zero.** -/
theorem childReturn_right_iff_zero :
    ∃ s p, exec step .initial (exitRun 0) = some s ∧ s.find 1 = some p ∧
      (p.getChildReturnValue 2).1 = exitCode s 1 2 := by
  have hrun : (exec step .initial (exitRun 0)).isSome = true := by decide
  obtain ⟨s, hs⟩ := isSome_iff_exists.mp hrun
  have hcheck : (exec step .initial (exitRun 0)).all (fun s => decide
      (∀ e ∈ s.ended, e.pid = 2 → e.parent = 1 → e.returnValue = 0) && (s.find 1).isSome) = true := by
    decide
  rw [hs, all_some, Bool.and_eq_true, decide_eq_true_eq, isSome_iff_exists] at hcheck
  obtain ⟨hok, p, hp⟩ := hcheck
  exact ⟨s, p, hs, hp, (childReturn_right_iff (exitRun 0) s hs 1 p hp 2).1.mpr hok⟩

/-- **A child that ends with exit code 5**: its parent is told 0. -/
theorem childReturn_wrong :
    (exec step .initial (exitRun 5)).map (fun s => (answer s 1 2, exitCode s 1 2)) = some (some 0, 5) := by
  decide

end Btos.Kernel.Processes
