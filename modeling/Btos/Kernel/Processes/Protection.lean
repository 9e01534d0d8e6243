import Btos.Kernel.Processes.Numbers

/-!
# Protected environment variables

Code in user space may not touch a variable that is read-only or private, may not make a private one, and may
not see the value of one.

* `Kept`, `SetRight` — **what a call from user space has to leave alone**;
* `environment_right` — **a call, a lookup and the file are right exactly under these conditions** (a lookup
  always is), and a run of calls that meet them leaves everything protected alone.
-/

namespace Btos.Kernel.Processes

open Util Option ProcessManager
open Lib.Transition

/-! ### What is to be left alone -/

/-- A protected variable stays as it is, and none becomes private. -/
structure Kept (old new : Option EnvironmentVariable) : Prop where
  stays : ∀ v, old = some v → v.isProtected = true → new = some v
  not_private : ∀ v, new = some v → isPrivate v.flags = true → ∃ w, old = some w ∧ isPrivate w.flags = true

theorem Kept.refl (v : Option EnvironmentVariable) : Kept v v := ⟨fun _ h _ => h, fun w h hp => ⟨w, h, hp⟩⟩

theorem Kept.trans (h₁ : Kept u v) (h₂ : Kept v w) : Kept u w where
  stays x hx hp := h₂.stays x (h₁.stays x hx hp) hp
  not_private x hx hp := by
    obtain ⟨y, hy, hyp⟩ := h₂.not_private x hx hp
    exact h₁.not_private y hy hyp

/-- **Nothing protected has changed**, in any environment. -/
def SetRight (s t : ProcessManager) : Prop := ∀ pid name, Kept (s.lookup pid name) (t.lookup pid name)

/-- The condition on storing a variable without checks. -/
def StoreOk (old : Option EnvironmentVariable) (value : Text) (flags : BitVec 8) : Prop :=
  (∀ v, old = some v → v.isProtected = true → value ≠ [] ∧ v = ⟨value, flags⟩) ∧
    ((∀ v, old = some v → v.isProtected = false) → value = [] ∨ isPrivate flags = false)

/-- The condition on a call from user space. -/
def SetOk (s : ProcessManager) (pid : ℕ) (name value : Text) (flags : BitVec 8) : Prop :=
  pid ≠ 0 → isGlobal flags = true → StoreOk (s.lookup 0 (toUpper name)) value flags

/-- **The condition on the information file**: no global variable is private. -/
def HidesPrivate (s : ProcessManager) : Prop :=
  ∀ name v, s.lookup 0 name = some v → isGlobal v.flags = true → isPrivate v.flags = false

/-! ### One call -/

/-- What is stored under the name without checks. -/
def stored (value : Text) (flags : BitVec 8) : Option EnvironmentVariable :=
  if value ≠ [] then some ⟨value, flags⟩ else none

theorem find_setVariable (env : Map Text EnvironmentVariable) (name value : Text) (flags : BitVec 8)
    (userspace : Bool) (n : Text) : (setVariable env name value flags userspace).find n =
      if toUpper name = n ∧ (userspace && refused env (toUpper name) flags) = false then stored value flags
      else env.find n := by
  simp only [setVariable]
  cases userspace && refused env (toUpper name) flags with
  | true => simp
  | false =>
    by_cases hn : toUpper name = n
    · subst hn
      by_cases hv : value = []
      · cases hk : env.find (toUpper name) <;> simp [stored, hv, Map.find_erase, Map.hasKey, hk]
      · simp [stored, hv]
    · by_cases hv : value = []
      · cases hk : env.hasKey (toUpper name) <;> simp [hv, Map.find_erase, hn]
      · simp [hv, Map.find_set, hn]

/-- **A call that is checked** leaves everything protected alone. -/
theorem kept_setVariable (env : Map Text EnvironmentVariable) (name value : Text) (flags : BitVec 8)
    (n : Text) : Kept (env.find n) ((setVariable env name value flags true).find n) := by
  rw [find_setVariable]
  split
  · rename_i h
    obtain ⟨rfl, hnot⟩ := h
    simp only [refused, Bool.true_and, Bool.or_eq_false_iff] at hnot
    refine ⟨fun v hv hp => ?_, fun v hv hp => ?_⟩
    · rw [hv] at hnot
      simp [hp] at hnot
    · simp only [stored] at hv
      split at hv
      · cases hv
        rw [hnot.1] at hp
        cases hp
      · cases hv
  · exact .refl _

/-- **Storing without checks** is right exactly under its condition. -/
theorem kept_stored_iff (old : Option EnvironmentVariable) (value : Text) (flags : BitVec 8) :
    Kept old (stored value flags) ↔ StoreOk old value flags := by
  constructor
  · intro h
    refine ⟨fun v hv hp => ?_, fun hunprotected => ?_⟩
    · have hnew := h.stays v hv hp
      obtain ⟨hne, hnew⟩ := ite_none_right_eq_some.1 hnew
      cases hnew
      exact ⟨hne, rfl⟩
    · by_cases hv : value = []
      · exact .inl hv
      · refine .inr ?_
        by_contra hp
        obtain ⟨w, hw, hwp⟩ := h.not_private ⟨value, flags⟩ (by simp [stored, hv]) (by simpa using hp)
        have hun := hunprotected w hw
        simp [EnvironmentVariable.isProtected, hwp] at hun
  · intro ⟨hprotected, hopen⟩
    refine ⟨fun v hv hp => ?_, fun v hv hp => ?_⟩
    · obtain ⟨hne, rfl⟩ := hprotected v hv hp
      simp [stored, hne]
    · obtain ⟨hne, hv⟩ := ite_none_right_eq_some.1 hv
      cases hv
      by_cases hall : ∀ v, old = some v → v.isProtected = false
      · rcases hopen hall with he | hnot
        · exact absurd he hne
        · rw [hnot] at hp
          cases hp
      · simp only [not_forall, Bool.not_eq_false] at hall
        obtain ⟨w, hw, hwp⟩ := hall
        obtain ⟨-, rfl⟩ := hprotected w hw hwp
        exact ⟨_, hw, hp⟩

theorem lookup_modifyEnvironment {s t : ProcessManager} {k : ℕ}
    {f : Map Text EnvironmentVariable → Map Text EnvironmentVariable} (h : s.modifyEnvironment k f = some t)
    (j : ℕ) (n : Text) :
    t.lookup j n = if j = k then (s.find k).bind fun p => (f p.environment).find n else s.lookup j n := by
  rw [lookup, find_callM (by intro p q hpq; cases hpq; rfl) h j]
  by_cases hj : j = k
  · rw [if_pos hj, if_pos hj, bind_assoc]
    rfl
  · rw [if_neg hj, if_neg hj]
    rfl

/-- **A call from user space is right exactly under its condition.** -/
theorem setRight_iff {s t : ProcessManager} {pid : ℕ} {name value : Text} {flags : BitVec 8}
    (h : s.setEnvironmentVariable pid name value flags true = some t) :
    SetRight s t ↔ SetOk s pid name value flags := by
  rw [setEnvironmentVariable] at h
  by_cases hredirect : pid ≠ 0 ∧ isGlobal flags = true
  · -- the kernel stores the variable, without checks
    rw [if_pos hredirect, setGlobalEnvironmentVariable, hredirect.2, Bool.not_true,
      if_neg Bool.false_ne_true] at h
    obtain ⟨p, hp⟩ := exists_of_callM h
    have hold : ∀ n, s.lookup 0 n = p.environment.find n := by
      intro n
      rw [lookup, hp]
      rfl
    have hnew : ∀ n, t.lookup 0 n =
        if toUpper name = n then stored value flags else p.environment.find n := by
      intro n
      rw [lookup_modifyEnvironment h, hp, bind_some, find_setVariable]
      simp
    have hself : t.lookup 0 (toUpper name) = stored value flags := by
      rw [hnew, if_pos rfl]
    rw [SetOk, ← kept_stored_iff, ← hself]
    constructor
    · intro hright _ _
      exact hright 0 (toUpper name)
    · intro hkept j n
      by_cases hj : j = 0
      · subst hj
        by_cases hn : toUpper name = n
        · subst hn
          exact hkept hredirect.1 hredirect.2
        · rw [hnew, if_neg hn, hold]
          exact .refl _
      · rw [lookup_modifyEnvironment h, if_neg hj]
        exact .refl _
  · -- the call is checked
    rw [if_neg hredirect] at h
    refine iff_of_true (fun j n => ?_) fun hpid hglobal => absurd ⟨hpid, hglobal⟩ hredirect
    rw [lookup_modifyEnvironment h]
    by_cases hj : j = pid
    · subst hj
      rw [if_pos rfl, lookup]
      cases s.find j with
      | none => exact .refl _
      | some p => exact kept_setVariable p.environment name value flags n
    · rw [if_neg hj]
      exact .refl _

/-! ### A run of calls -/

/-- An act from user space that meets its condition. -/
def UserSetOk (s : ProcessManager) : Act → Prop
  | .setEnvironmentVariable pid name value flags userspace => userspace = true ∧ SetOk s pid name value flags
  | _ => False

/-- **A run of calls that meet the condition** leaves everything protected alone. -/
theorem setRight_of_run (bs : List Act) : ∀ {s t : ProcessManager}, exec step s bs = some t →
    Guarded step UserSetOk s bs → SetRight s t := by
  induction bs with
  | nil =>
    intro s t h _
    cases h
    exact fun _ _ => .refl _
  | cons a bs ih =>
    intro s t h hguard
    obtain ⟨u, hu, hrest⟩ := bind_eq_some_iff.mp h
    obtain ⟨hok, hguard⟩ := hguard
    rw [hu] at hguard
    have hfirst : SetRight s u := by
      cases a with
      | setEnvironmentVariable pid name value flags userspace =>
        obtain ⟨rfl, hok⟩ := hok
        exact (setRight_iff hu).mpr hok
      | _ => exact hok.elim
    intro pid name
    exact (hfirst pid name).trans (ih hrest hguard pid name)

/-! ### Reading -/

/-- **A lookup from user space** never finds a private variable. -/
theorem not_private_of_readVariable {s : ProcessManager} {pid : ℕ} {name : Text} {v : EnvironmentVariable}
    (h : s.readVariable pid name true = some v) : isPrivate v.flags = false := by
  simp only [readVariable, Bool.true_and] at h
  split at h
  · split at h
    · cases h
    · cases h
      simpa using ‹¬ isPrivate v.flags = true›
  · split at h
    · cases h
    · split at h
      · cases h
      · cases h
        simpa using ‹¬ isPrivate v.flags = true›

theorem mem_entries_iff (s : ProcessManager) (pid : ℕ) (name : Text) (v : EnvironmentVariable) :
    (name, v) ∈ s.entries pid ↔ s.lookup pid name = some v := by
  simp only [entries, lookup]
  cases s.find pid with
  | none => simp
  | some p => exact p.environment.mem_items_iff name v

/-- **The information file** shows no private variable exactly if no global one is private. -/
theorem envEntries_right_iff (s : ProcessManager) :
    (∀ e ∈ s.envEntries, isPrivate e.2.flags = false) ↔ HidesPrivate s := by
  simp only [envEntries, List.mem_append, List.mem_filter]
  constructor
  · intro h name v hv hglobal
    exact h (name, v) (.inl ⟨(mem_entries_iff s 0 name v).mpr hv, hglobal⟩)
  · intro h ⟨name, v⟩ he
    rcases he with ⟨hmem, hglobal⟩ | ⟨-, hprivate⟩
    · exact h name v ((mem_entries_iff s 0 name v).mp hmem) hglobal
    · simpa using hprivate

/-! ### The result -/

/-- **Protected variables and user space**, in every state: a call is right exactly under its condition, a
lookup always, the information file exactly under its own; a run of calls that meet the condition leaves
everything protected alone. -/
theorem environment_right (s : ProcessManager) :
    (∀ pid name value flags t, step s (.setEnvironmentVariable pid name value flags true) = some t →
      (SetRight s t ↔ SetOk s pid name value flags)) ∧
    (∀ bs t, exec step s bs = some t → Guarded step UserSetOk s bs → SetRight s t) ∧
    (∀ pid name v, s.readVariable pid name true = some v → isPrivate v.flags = false) ∧
    ((∀ e ∈ s.envEntries, isPrivate e.2.flags = false) ↔ HidesPrivate s) :=
  ⟨fun _ _ _ _ _ h => setRight_iff h, fun bs _ h hg => setRight_of_run bs h hg,
    fun _ _ _ h => not_private_of_readVariable h, envEntries_right_iff s⟩

/-- **A variable of its own** that process 1 sets. -/
theorem environment_right_own :
    ∃ s t, exec step .initial [.newProcess 0] = some s ∧
      step s (.setEnvironmentVariable 1 ['a'] ['z'] 0#8 true) = some t ∧ SetRight s t := by
  have hrun : ((exec step .initial [.newProcess 0]).bind fun s =>
      step s (.setEnvironmentVariable 1 ['a'] ['z'] 0#8 true)).isSome = true := by decide
  obtain ⟨t, ht⟩ := isSome_iff_exists.mp hrun
  obtain ⟨s, hs, ht⟩ := bind_eq_some_iff.mp ht
  refine ⟨s, t, hs, ht, ((environment_right s).1 1 ['a'] ['z'] 0#8 t ht).mpr ?_⟩
  nofun

/-- The kernel has a read-only global variable and a private one; process 1 sets the first. -/
def leakRun : List Act :=
  [.setEnvironmentVariable 0 ['A'] ['x'] 3#8 false, .setEnvironmentVariable 0 ['B'] ['y'] 5#8 false,
    .newProcess 0, .setEnvironmentVariable 1 ['a'] ['z'] 1#8 true]

/-- **The read-only variable has been overwritten from user space, and the private one is printed.** -/
theorem environment_wrong :
    (exec step .initial (leakRun.take 3)).map (fun s => s.lookup 0 ['A']) = some (some ⟨['x'], 3#8⟩) ∧
      (exec step .initial leakRun).map (fun s => s.lookup 0 ['A']) = some (some ⟨['z'], 1#8⟩) ∧
      (exec step .initial leakRun).map (fun s => s.envEntries) =
        some [(['A'], ⟨['z'], 1#8⟩), (['B'], ⟨['y'], 5#8⟩), (['A'], ⟨['z'], 1#8⟩)] := by
  refine ⟨?_, ?_, ?_⟩ <;> decide

end Btos.Kernel.Processes
