import Btos.Kernel.Processes.Perms

/-!
# Runs of the process manager

What the kernel's callers can ask of the process manager, in any order, and what one such act can do to a
process.

* `Act`, `step` — **the acts**: processes come and go, and their data are read and set;
* `step_back` — **every process after an act was there before it and has evolved, or it is the new one**.
-/

namespace Btos.Kernel.Processes

open Util ProcessManager Lib.Table

/-! ### Acts -/

inductive Act where
  | newProcess (parent : ℕ)
  | setExitCode (pid : ℕ) (value : ℤ)
  | setReturnValue (pid : ℕ) (value : ℤ)
  | endProcess (pid : ℕ)
  | terminate (pid : ℕ)
  | startUserThread (pid : ℕ)
  | incrementRefCount (pid : ℕ)
  | decrementRefCount (pid : ℕ)
  | switchProcess (pid : ℕ)
  | collect
  | cleanup
  | getChildReturnValue (pid child : ℕ)
  | setPermissions (ext : BitVec 16) (pmask : BitVec 64) (pid : ℕ) (known : Bool)
  | setEnvironmentVariable (pid : ℕ) (name value : Text) (flags : BitVec 8) (userspace : Bool)

def step (s : ProcessManager) : Act → Option ProcessManager
  | .newProcess parent => s.newProcess parent
  | .setExitCode pid value => s.call pid fun p => p.setExitCode value
  | .setReturnValue pid value => s.call pid fun p => p.setReturnValue value
  | .endProcess pid => s.endProcess pid
  | .terminate pid => s.terminate pid
  -- the thread of `NewUserThread`, once it has switched to the process
  | .startUserThread pid => s.call pid fun p => { p with status := .running }
  | .incrementRefCount pid => s.callM pid Process.incrementRefCount
  | .decrementRefCount pid => s.callM pid Process.decrementRefCount
  | .switchProcess pid => s.switchProcess pid
  | .collect => s.collect
  | .cleanup => s.cleanup
  | .getChildReturnValue pid child => s.call pid fun p => (p.getChildReturnValue child).2
  | .setPermissions ext pmask pid known => s.setPermissions ext pmask pid known
  | .setEnvironmentVariable pid name value flags userspace =>
      s.setEnvironmentVariable pid name value flags userspace

/-! ### Finding a process -/

theorem ProcessManager.pid_of_find {s : ProcessManager} {k : ℕ} {p : Process} (h : s.find k = some p) :
    p.pid = k := by
  simpa using List.find?_some h

variable {s t : ProcessManager} {f : Process → Option Process}

/-- **After a method of a process**, what is found under every number. -/
theorem ProcessManager.find_callM (hf : ∀ p q, f p = some q → q.pid = p.pid)
    (h : s.callM pid f = some t) (k : ℕ) : t.find k = if k = pid then (s.find pid).bind f else s.find k := by
  obtain ⟨ps, hps, rfl⟩ := Option.map_eq_some_iff.mp h
  exact find?_updateFirst hf hps k

theorem ProcessManager.exists_of_callM (h : s.callM pid f = some t) : ∃ p, s.find pid = some p := by
  have hsome : (s.callM pid f).isSome = true := by
    rw [h]
    rfl
  rw [callM, Option.isSome_map, updateFirst_isSome_iff] at hsome
  cases hp : s.processes.find? fun p => p.pid = pid with
  | none =>
    rw [hp] at hsome
    cases hsome
  | some p => exact ⟨p, hp⟩

/-! ### Acts that leave the data alone -/

/-- Of the two processes, at most the status, the exit code and the references are different. -/
structure SameData (p q : Process) : Prop where
  pid : q.pid = p.pid
  parent : q.parent = p.parent
  childReturns : q.childReturns = p.childReturns
  environment : q.environment = p.environment
  permissions : q.permissions = p.permissions

theorem SameData.refl (p : Process) : SameData p p := ⟨rfl, rfl, rfl, rfl, rfl⟩

theorem SameData.trans (h₁ : SameData p q) (h₂ : SameData q r) : SameData p r where
  pid := h₂.pid.trans h₁.pid
  parent := h₂.parent.trans h₁.parent
  childReturns := h₂.childReturns.trans h₁.childReturns
  environment := h₂.environment.trans h₁.environment
  permissions := h₂.permissions.trans h₁.permissions

theorem sameData_setExitCode (p : Process) (value : ℤ) : SameData p (p.setExitCode value) :=
  ⟨rfl, rfl, rfl, rfl, rfl⟩

theorem sameData_incrementRefCount (h : p.incrementRefCount = some q) : SameData p q := by
  simp only [Process.incrementRefCount] at h
  split at h
  · cases h
  · cases h
    exact ⟨rfl, rfl, rfl, rfl, rfl⟩

theorem sameData_decrementRefCount (h : p.decrementRefCount = some q) : SameData p q := by
  simp only [Process.decrementRefCount] at h
  split at h
  · cases h
  · cases h
    exact ⟨rfl, rfl, rfl, rfl, rfl⟩

theorem sameData_markEnding (p : Process) : SameData p p.markEnding := by
  simp only [Process.markEnding]
  split
  · exact .refl p
  · exact ⟨rfl, rfl, rfl, rfl, rfl⟩

/-- **Every process was there before**, and is related to what it was; the counter and the record are the same. -/
structure Evolved (R : Process → Process → Prop) (s t : ProcessManager) : Prop where
  pidCounter : t.pidCounter = s.pidCounter
  ended : t.ended = s.ended
  back : ∀ k q, t.find k = some q → ∃ p, s.find k = some p ∧ R p q

/-- **The data of every process are what they were**. -/
abbrev Quiet := Evolved SameData

section

variable {R : Process → Process → Prop} (hrefl : ∀ p, R p p)
include hrefl

theorem Evolved.refl (s : ProcessManager) : Evolved R s s := ⟨rfl, rfl, fun _ q h => ⟨q, h, hrefl q⟩⟩

/-- **A method of one process** leaves the others alone. -/
theorem evolved_callM (hpid : ∀ p q, f p = some q → q.pid = p.pid) (hf : ∀ p q, p.pid = pid → f p = some q → R p q)
    (h : s.callM pid f = some t) : Evolved R s t := by
  have hfind := find_callM hpid h
  obtain ⟨ps, -, rfl⟩ := Option.map_eq_some_iff.mp h
  refine ⟨rfl, rfl, fun k q hq => ?_⟩
  rw [hfind k] at hq
  by_cases hk : k = pid
  · subst hk
    rw [if_pos rfl] at hq
    obtain ⟨p, hp, hpq⟩ := Option.bind_eq_some_iff.mp hq
    exact ⟨p, hp, hf p q (pid_of_find hp) hpq⟩
  · rw [if_neg hk] at hq
    exact ⟨q, hq, hrefl q⟩

theorem evolved_call {pid : ℕ} {f : Process → Process} (h : s.call pid f = some t) (hpid : ∀ p, (f p).pid = p.pid)
    (hf : ∀ p, p.pid = pid → R p (f p)) : Evolved R s t := by
  refine evolved_callM hrefl (fun p q hpq => ?_) (fun p q hp hpq => ?_) h <;> cases hpq
  · exact hpid p
  · exact hf p hp

end

theorem Quiet.trans (h₁ : Quiet s t) (h₂ : Quiet t u) : Quiet s u where
  pidCounter := h₂.pidCounter.trans h₁.pidCounter
  ended := h₂.ended.trans h₁.ended
  back k r hr := by
    obtain ⟨q, hq, hqr⟩ := h₂.back k r hr
    obtain ⟨p, hp, hpq⟩ := h₁.back k q hq
    exact ⟨p, hp, hpq.trans hqr⟩

theorem quiet_callM (hf : ∀ p q, f p = some q → SameData p q) (h : s.callM pid f = some t) : Quiet s t :=
  evolved_callM .refl (fun p q hpq => (hf p q hpq).pid) (fun p q _ => hf p q) h

theorem quiet_call {pid : ℕ} {f : Process → Process} (h : s.call pid f = some t) (hf : ∀ p, SameData p (f p)) :
    Quiet s t := evolved_call .refl h (fun p => (hf p).pid) fun p _ => hf p

theorem quiet_switchProcess (h : s.switchProcess pid = some t) : Quiet s t := by
  simp only [switchProcess] at h
  split at h
  · cases h
    exact .refl .refl s
  · split at h
    · cases h
      exact .refl .refl s
    · obtain ⟨u, hu, ht⟩ := Option.bind_eq_some_iff.mp h
      have h1 : Quiet s u := quiet_callM (fun p q => sameData_decrementRefCount) hu
      have h2 : Quiet u { u with currentProcess := pid } := ⟨rfl, rfl, fun _ q hq => ⟨q, hq, .refl q⟩⟩
      exact (h1.trans h2).trans (quiet_callM (fun p q => sameData_incrementRefCount) ht)

theorem quiet_endProcess (h : s.endProcess pid = some t) : Quiet s t := by
  simp only [endProcess] at h
  split at h
  · cases h
  · obtain ⟨u, hu, ht⟩ := Option.bind_eq_some_iff.mp h
    have h1 : Quiet s u := quiet_call hu sameData_markEnding
    split at ht
    · exact h1.trans (quiet_switchProcess ht)
    · cases ht
      exact h1

theorem quiet_terminate (h : s.terminate pid = some t) : Quiet s t := by
  simp only [terminate] at h
  split at h
  · cases h
  · obtain ⟨u, hu, ht⟩ := Option.bind_eq_some_iff.mp h
    obtain ⟨v, hv, ht⟩ := Option.bind_eq_some_iff.mp ht
    have h1 : Quiet s u := quiet_call hu (sameData_setExitCode · (-1))
    have h2 : Quiet u v := by
      split at hv
      · exact quiet_switchProcess hv
      · cases hv
        exact .refl .refl u
    exact (h1.trans h2).trans (quiet_endProcess ht)

theorem quiet_collect (h : s.collect = some t) : Quiet s t := by
  simp only [collect] at h
  split at h
  · cases h
    exact ⟨rfl, rfl, fun _ q hq => ⟨q, hq, .refl q⟩⟩
  · cases h

/-! ### What an act can do to a process -/

/-- **What the act can do to one process** in a state. -/
inductive Evolves (s : ProcessManager) : Act → Process → Process → Prop where
  | same {a : Act} {p q : Process} (h : SameData p q) : Evolves s a p q
  | queried (p : Process) (child : ℕ) :
      Evolves s (.getChildReturnValue p.pid child) p (p.getChildReturnValue child).2
  | reported (p r : Process) (hr : s.find r.pid = some r) (hparent : r.parent = p.pid) (hne : r.parent ≠ 0) :
      Evolves s .cleanup p (p.setChildReturnValue r.pid r.returnValue)
  | permitted (p : Process) (ext : BitVec 16) (pmask : BitVec 64) (known : Bool)
      (hext : ext = 0#16 ∨ known = true) :
      Evolves s (.setPermissions ext pmask p.pid known) p (p.addPermissions ext pmask)
  | equipped {a : Act} (p : Process) (env : Map Text EnvironmentVariable)
      (ha : ∃ pid name value flags userspace, a = .setEnvironmentVariable pid name value flags userspace) :
      Evolves s a p { p with environment := env }

theorem Evolves.pid (h : Evolves s a p q) : q.pid = p.pid ∧ q.parent = p.parent := by
  cases h with
  | same h => exact ⟨h.pid, h.parent⟩
  | queried child =>
    simp only [Process.getChildReturnValue]
    split <;> exact ⟨rfl, rfl⟩
  | reported r hr hparent hne | permitted ext pmask known hext | equipped env ha => exact ⟨rfl, rfl⟩

/-- The processes are there before the act, and have evolved. -/
abbrev Back (s : ProcessManager) (a : Act) (t : ProcessManager) : Prop := Evolved (Evolves s a) s t

theorem Evolves.refl (p : Process) : Evolves s a p p := .same (.refl p)

theorem Quiet.back (h : Quiet s t) (a : Act) : Back s a t := by
  refine ⟨h.pidCounter, h.ended, fun k q hq => ?_⟩
  obtain ⟨p, hp, hpq⟩ := Evolved.back h k q hq
  exact ⟨p, hp, .same hpq⟩

theorem pid_getChildReturnValue (p : Process) (child : ℕ) : (p.getChildReturnValue child).2.pid = p.pid := by
  simp only [Process.getChildReturnValue]
  split <;> rfl

theorem ProcessManager.find_of_getByID (h : s.getByID k b = some p) : s.find k = some p := by
  simp only [getByID] at h
  split at h
  · cases h
  · split at h
    · cases h
    · cases h
      assumption

/-- **The report of an exit code** changes at most the parent. -/
theorem back_report (hr : s.find r.pid = some r) (h : s.report r = some t) : Back s .cleanup t := by
  simp only [report] at h
  split at h
  · cases h
    exact .refl .refl s
  · rename_i hne
    split at h
    · cases h
      exact .refl .refl s
    · rename_i q hq
      have hparent : q.pid = r.parent := pid_of_find (find_of_getByID hq)
      refine evolved_call .refl h (fun p => rfl) fun p hp => ?_
      exact .reported p r hr (by rw [hp, hparent]) hne

/-- **What `cleanup` does**: a process is reported, gone, and on record. -/
theorem cleanup_cases (h : s.cleanup = some t) :
    ∃ p u, s.find p.pid = some p ∧ Back s .cleanup u ∧ t.pidCounter = s.pidCounter ∧
      t.ended = s.ended ++ [⟨p.pid, p.parent, p.returnValue⟩] ∧
      ∀ k, t.find k = if k = p.pid then none else u.find k := by
  simp only [cleanup] at h
  split at h
  · cases h
  · split at h
    · obtain ⟨p, hp, h⟩ := Option.bind_eq_some_iff.mp h
      obtain ⟨u, hu, rfl⟩ := Option.map_eq_some_iff.mp h
      have hself : s.find p.pid = some p := by rw [pid_of_find hp]; exact hp
      have hback := back_report hself hu
      exact ⟨p, u, hself, hback, hback.pidCounter, by rw [← hback.ended], find?_filter_ne u.processes p.pid⟩
    · cases h

theorem back_setEnvironmentVariable (h : s.setEnvironmentVariable pid name value flags userspace = some t) :
    Back s (.setEnvironmentVariable pid name value flags userspace) t := by
  have hcall : ∀ k f, s.modifyEnvironment k f = some t →
      Back s (.setEnvironmentVariable pid name value flags userspace) t := by
    intro k f hk
    exact evolved_call .refl hk (fun p => rfl) fun p _ => .equipped p _ ⟨pid, name, value, flags, userspace, rfl⟩
  simp only [setEnvironmentVariable, setGlobalEnvironmentVariable] at h
  split at h
  · split at h
    · cases h
      exact .refl .refl s
    · exact hcall _ _ h
  · exact hcall _ _ h

theorem back_setPermissions (h : s.setPermissions ext pmask pid known = some t) :
    Back s (.setPermissions ext pmask pid known) t := by
  simp only [setPermissions] at h
  split at h
  · cases h
    exact .refl .refl s
  · rename_i hext
    refine evolved_call .refl h (fun p => rfl) fun p hp => ?_
    rw [← hp]
    refine .permitted p ext pmask known ?_
    by_cases he : ext = 0#16
    · exact .inl he
    · right
      cases known with
      | true => rfl
      | false => exact absurd ⟨he, rfl⟩ hext

/-- The process that `NewProcess` makes. -/
def Fresh (s : ProcessManager) (a : Act) (k : ℕ) (q : Process) : Prop :=
  ∃ p, a = .newProcess p.pid ∧ s.find p.pid = some p ∧ k = s.pidCounter + 1 ∧ q = child p k

def Act.Plain (a : Act) : Prop := (∀ parent, a ≠ .newProcess parent) ∧ a ≠ .cleanup

/-- **A plain act** leaves the counter and the record as they are, and no process comes or goes. -/
theorem step_plain {a : Act} (ha : a.Plain) (h : step s a = some t) : Back s a t := by
  cases a with
  | newProcess parent => exact absurd rfl (ha.1 parent)
  | cleanup => exact absurd rfl ha.2
  | setExitCode pid value | setReturnValue pid value =>
    exact (quiet_call h (sameData_setExitCode · value)).back _
  | endProcess pid => exact (quiet_endProcess h).back _
  | terminate pid => exact (quiet_terminate h).back _
  | startUserThread pid =>
    have hquiet : Quiet s t := quiet_call h fun p => ⟨rfl, rfl, rfl, rfl, rfl⟩
    exact hquiet.back _
  | incrementRefCount pid => exact (quiet_callM (fun _ _ => sameData_incrementRefCount) h).back _
  | decrementRefCount pid => exact (quiet_callM (fun _ _ => sameData_decrementRefCount) h).back _
  | switchProcess pid => exact (quiet_switchProcess h).back _
  | collect => exact (quiet_collect h).back _
  | getChildReturnValue pid child =>
    refine evolved_call .refl h (pid_getChildReturnValue · child) fun p hp => ?_
    rw [← hp]
    exact .queried p child
  | setPermissions ext pmask pid known => exact back_setPermissions h
  | setEnvironmentVariable pid name value flags userspace => exact back_setEnvironmentVariable h

/-- **Every process after an act was there before it and has evolved, or it is the new one.** -/
theorem step_back {a : Act} (h : step s a = some t) (k : ℕ) (q : Process) (hq : t.find k = some q) :
    (∃ p, s.find k = some p ∧ Evolves s a p q) ∨ Fresh s a k q := by
  by_cases ha : a.Plain
  · exact .inl ((step_plain ha h).back k q hq)
  cases a with
  | newProcess parent =>
    simp only [step, newProcess] at h
    split at h
    · cases h
    · rename_i p hp
      cases h
      have hpid : p.pid = parent := pid_of_find hp
      simp only [find, find?_append_singleton, Option.or_eq_some_iff] at hq
      rcases hq with hold | ⟨-, hnew⟩
      · exact .inl ⟨q, hold, .refl q⟩
      · right
        obtain ⟨hk, hnew⟩ := Option.ite_none_right_eq_some.1 hnew
        cases hnew
        subst hpid
        exact ⟨p, rfl, hp, hk.symm, by rw [← hk]; rfl⟩
  | cleanup =>
    obtain ⟨p, u, -, hback, -, -, hfind⟩ := cleanup_cases h
    rw [hfind] at hq
    split at hq
    · cases hq
    · exact .inl (hback.back k q hq)
  | _ => exact absurd ⟨by simp, by simp⟩ ha

end Btos.Kernel.Processes
