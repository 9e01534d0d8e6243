import Btos.Lib.Tickets
import Btos.User.Newlib.PthreadMutex

/-!
# Condition variables over kernel atoms

`newlib/libc/sys/btos/pthread_cond.c` keeps a condition variable in one atom.  `pthread_cond_wait` adds 1 and waits until
the value is less than the one it got; `pthread_cond_signal` takes 1 from the value and `pthread_cond_broadcast` sets it
to 0.

Each call of the atom functions is one step.  The mutex is left and taken again in steps of their own, which do not touch
the condition's atom.

* `State.woken` — **what the property is about**: a signal or a broadcast has enabled the thread's wait;
* `view`, `step_cases` — **the code waits with tickets**: every step begins a wait, ends one, lowers the number or is not
  seen.  A thread waits for every number up to the value of the atom, so the value never wraps;
* `StepOk` — **no new thread takes the ticket of a thread that is enabled**: as long as a thread that has been woken has
  not left its wait, another one that adds 1 puts it to sleep again.
-/

namespace Btos.User.Newlib.PthreadCond

open Kernel.Atoms Lib Lib.Transition Lib.Word Function Bool
open Lib.Tickets (Room mayGo)
open User.Newlib.PthreadMutex (Handle one two)

/-! ### The code -/

/-- Where a thread is; `val` is the local variable of that name. -/
inductive Pc where
  | idle
  /-- `pthread_cond_wait`, before `bt_modify_atom`. -/
  | waitAdd
  /-- Before `pthread_mutex_unlock`. -/
  | waitUnlock (val : ℕ)
  /-- Before `bt_wait_atom`, or in it. -/
  | waiting (val : ℕ)
  /-- Before `pthread_mutex_lock`. -/
  | waitLock
  /-- `pthread_cond_signal`, before `bt_read_atom`. -/
  | signalRead
  /-- Before `bt_cmpxchg_atom`. -/
  | signalExchange (val : ℕ)
  /-- `pthread_cond_broadcast`, before `bt_modify_atom`. -/
  | broadcast
  deriving DecidableEq, Repr

def Pc.ticket : Pc → Option ℕ
  | .waitUnlock val => some val
  | .waiting val => some val
  | _ => none

structure State where
  atom : Atom
  pc : Handle → Pc
  woken : Handle → Bool

/-- `pthread_cond_init`, before any call. -/
def pthreadCondInit : State := ⟨newAtom 0, fun _ => .idle, fun _ => false⟩

inductive Act where
  | wait (t : Handle)
  | signal (t : Handle)
  | broadcast (t : Handle)
  /-- The next step of the call `t` is in. -/
  | next (t : Handle)

def State.enabled (s : State) (t : Handle) : Bool :=
  match (s.pc t).ticket with
  | none => false
  | some val => s.atom.waitBlockCheck .lessThan val

/-- The thread `t` goes to another place. -/
def State.setPc (s : State) (t : Handle) (pc : Pc) : State := { s with pc := update s.pc t pc }

/-- The state with a new value that a signal or a broadcast has stored. -/
def State.wake (s : State) (a : Atom) : State :=
  { s with atom := a, woken := fun u => s.woken u || State.enabled { s with atom := a } u }

/-- The thread `t` begins or ends its wait. -/
def State.unwoken (s : State) (t : Handle) : State := { s with woken := update s.woken t false }

def startCall (s : State) (t : Handle) (pc : Pc) : Option State :=
  if s.pc t = .idle then some (s.setPc t pc) else none

/-- The next step of the thread `t`. -/
def nextStep (s : State) (t : Handle) : Option State :=
  match s.pc t with
  | .idle => none
  | .waitAdd =>
      let atom := s.atom.modify .add 1
      some ({ s with atom := atom }.setPc t (.waitUnlock atom.value) |>.unwoken t)
  | .waitUnlock val => some (s.setPc t (.waiting val))
  | .waiting val =>
      if s.atom.waitBlockCheck .lessThan val then some (s.setPc t .waitLock |>.unwoken t) else none
  | .waitLock => some (s.setPc t .idle)
  | .signalRead =>
      let val := s.atom.value
      some (s.setPc t (if val > 0 then .signalExchange val else .idle))
  | .signalExchange val =>
      let dval := sub64 val 1
      let atom := s.atom.compareExchange val dval
      some ((s.setPc t (if atom.value = dval then .idle else .signalRead)).wake atom)
  | .broadcast => some ((s.setPc t .idle).wake (s.atom.modify .set 0))

def step (s : State) : Act → Option State
  | .wait t => startCall s t .waitAdd
  | .signal t => startCall s t .signalRead
  | .broadcast t => startCall s t .broadcast
  | .next t => nextStep s t

/-! ### What is to be -/

/-- **A thread that has been woken is enabled** until it leaves its wait. -/
def Kept (s : State) : Prop := ∀ t, s.woken t = true → s.enabled t = true

/-- No thread gets the value with which an enabled thread compares. -/
def StepOk (s : State) : Act → Prop
  | .next t => s.pc t = .waitAdd → ∀ u, s.enabled u = true → (s.pc u).ticket ≠ some (s.atom.value + 1)
  | _ => True

/-! ### Tickets -/

/-- The threads as parties that wait with tickets. -/
def view (s : State) : Room Handle := ⟨s.atom.value, fun t => (s.pc t).ticket, s.woken⟩

theorem enabled_eq (s : State) (t : Handle) : s.enabled t = mayGo s.atom.value (s.pc t).ticket := by
  rw [State.enabled]
  cases (s.pc t).ticket with
  | none | some val => rfl

theorem view_enabled (s : State) (t : Handle) : (view s).enabled t = s.enabled t := (enabled_eq s t).symm

theorem kept_view (s : State) : Tickets.Kept (view s) ↔ Kept s := by
  rfl

theorem ticket_setPc (s : State) (t : Handle) (pc : Pc) :
    (fun u => ((s.setPc t pc).pc u).ticket) = update (fun u => (s.pc u).ticket) t pc.ticket := by
  funext u
  show (update s.pc t pc u).ticket = _
  by_cases hu : u = t
  · rw [hu, update_self, update_self]
  · rw [update_of_ne hu, update_of_ne hu]

variable {s s' : State} {a : Act} {t : Handle}

theorem view_setPc (h : pc.ticket = (s.pc t).ticket) : view (s.setPc t pc) = view s := by
  rw [view, ticket_setPc, h, update_eq_self]
  rfl

theorem view_wake (s : State) (a : Atom) : view (s.wake a) = (view s).lower a.value := by
  rw [State.wake]
  rfl

theorem view_enter (s : State) (t : Handle) {a : Atom} (ha : a.value = s.atom.value + 1) :
    view (({ s with atom := a }.setPc t (.waitUnlock a.value)).unwoken t) = (view s).enter t := by
  rw [view, State.unwoken]
  simp only [ticket_setPc]
  show Room.mk a.value _ _ = _
  rw [ha]
  rfl

theorem view_leave (s : State) (t : Handle) : view ((s.setPc t .waitLock).unwoken t) = (view s).leave t := by
  rw [view, State.unwoken]
  simp only [ticket_setPc]
  rfl

/-- The number that a signal has read is one from which 1 can be taken. -/
def Pc.Ok (pc : Pc) : Prop := ∀ val, pc = .signalExchange val → 0 < val ∧ val < 2 ^ 64

structure Inv (s : State) : Prop where
  room : Tickets.Inv (view s)
  exchange : ∀ t, (s.pc t).Ok

theorem Inv.atom_le (h : Inv s) : s.atom.value ≤ 2 ^ 32 := by
  have hinj : Function.Injective fun t : Handle => (⟨t.val, t.lt⟩ : Fin (2 ^ 32)) := by
    intro t u htu
    exact Handle.ext (congrArg Fin.val htu)
  exact h.room.value_le hinj

def Begins (s : State) (a : Act) (t : Handle) : Prop := a = .next t ∧ s.pc t = .waitAdd

theorem signal_lowers {atom : Atom} {val : ℕ} (hpos : 0 < val) (hlt : val < 2 ^ 64) :
    (atom.compareExchange val (sub64 val 1)).value ≤ atom.value := by
  by_cases hval : atom.value = val
  · rw [compareExchange_hit hval (sub64_lt val 1), sub64_of_le hlt hpos, hval]
    exact Nat.sub_le val 1
  · rw [compareExchange_miss hval]

inductive Quiet (s s' : State) : Prop where
  | same (h : view s' = view s)
  | leaves (t : Handle) (ht : (view s).enabled t = true) (h : view s' = (view s).leave t)
  | lowers (n : ℕ) (hn : n ≤ (view s).value) (h : view s' = (view s).lower n)

def Moves (s s' : State) : Prop := ∃ t pc, s'.pc = update s.pc t pc ∧ pc.Ok

theorem Moves.ok (h : Moves s s') (hs : ∀ t, (s.pc t).Ok) : (s'.pc u).Ok := by
  obtain ⟨t, pc, hpc, hok⟩ := h
  rw [hpc]
  by_cases hu : u = t
  · rw [hu, update_self]
    exact hok
  · rw [update_of_ne hu]
    exact hs u

theorem quiet_startCall (hpc : pc.ticket = none) (hok : pc.Ok) (hs : startCall s t pc = some s') :
    Moves s s' ∧ Quiet s s' := by
  unfold startCall at hs
  split at hs
  · rename_i hidle
    cases hs
    exact ⟨⟨t, pc, rfl, hok⟩, .same (view_setPc (by rw [hpc, hidle]; rfl))⟩
  · cases hs

/-- **The code waits with tickets.** -/
theorem step_cases (h : Inv s) (hs : step s a = some s') :
    Moves s s' ∧ (((∀ t, ¬ Begins s a t) ∧ Quiet s s') ∨ ∃ t, Begins s a t ∧ view s' = (view s).enter t) := by
  cases a with
  | wait t | signal t | broadcast t =>
    obtain ⟨hmoves, hquiet⟩ := quiet_startCall rfl (by simp [Pc.Ok]) hs
    exact ⟨hmoves, .inl ⟨fun _ hu => Act.noConfusion hu.1, hquiet⟩⟩
  | next t =>
    have hquiet : s.pc t ≠ .waitAdd → ∀ u, ¬ Begins s (.next t) u := by
      rintro hne u ⟨ha, hu⟩
      cases ha
      exact hne hu
    simp only [step, nextStep] at hs
    cases hpc : s.pc t with
    | idle =>
      rw [hpc] at hs
      cases hs
    | waitAdd =>
      rw [hpc] at hs
      cases hs
      have hle := h.atom_le
      have hadd : (s.atom.modify .add 1).value = s.atom.value + 1 := by
        rw [modify_add_value, add64_of_lt (by omega)]
      exact ⟨⟨t, _, rfl, by simp [Pc.Ok]⟩, .inr ⟨t, ⟨rfl, hpc⟩, view_enter s t hadd⟩⟩
    | waitUnlock val | waitLock =>
      rw [hpc] at hs
      cases hs
      exact ⟨⟨t, _, rfl, by simp [Pc.Ok]⟩, .inl ⟨hquiet (by simp [hpc]), .same (view_setPc (by rw [hpc]; rfl))⟩⟩
    | waiting val =>
      rw [hpc] at hs
      obtain ⟨hgo, hs⟩ := Option.ite_none_right_eq_some.1 hs
      cases hs
      refine ⟨⟨t, _, rfl, by simp [Pc.Ok]⟩, .inl ⟨hquiet (by simp [hpc]), .leaves t ?_ (view_leave s t)⟩⟩
      rw [view_enabled, State.enabled, hpc]
      exact hgo
    | signalRead =>
      rw [hpc] at hs
      cases hs
      refine ⟨⟨t, _, rfl, fun v hv => ?_⟩, .inl ⟨hquiet (by simp [hpc]), .same (view_setPc ?_)⟩⟩
      · split at hv
        · rename_i hpos
          cases hv
          exact ⟨hpos, s.atom.value_lt⟩
        · cases hv
      · rw [hpc]
        split <;> rfl
    | signalExchange val =>
      rw [hpc] at hs
      cases hs
      obtain ⟨hpos, hlt⟩ := h.exchange t val hpc
      refine ⟨⟨t, _, rfl, fun v hv => ?_⟩, .inl ⟨hquiet (by simp [hpc]), .lowers _ (signal_lowers hpos hlt) ?_⟩⟩
      · split at hv <;> cases hv
      · rw [view_wake, view_setPc]
        rw [hpc]
        split <;> rfl
    | broadcast =>
      rw [hpc] at hs
      cases hs
      refine ⟨⟨t, _, rfl, by simp [Pc.Ok]⟩, .inl ⟨hquiet (by simp [hpc]), .lowers 0 (Nat.zero_le _) ?_⟩⟩
      rw [view_wake, view_setPc (by rw [hpc]; rfl)]
      rfl

theorem ticket_of_begins (h : Begins s a t) : (view s).ticket t = none := by
  show (s.pc t).ticket = none
  rw [h.2]
  rfl

theorem inv_init : Inv pthreadCondInit := by
  refine ⟨⟨fun _ hk hle => absurd hk (Nat.not_lt.mpr hle), ?_, ?_⟩, ?_⟩
  · nofun
  · nofun
  · nofun

/-- **Step.** -/
theorem inv_step (h : Inv s) (hs : step s a = some s') : Inv s' where
  room := by
    rcases (step_cases h hs).2 with ⟨-, hquiet⟩ | ⟨t, hbegins, hview⟩
    · cases hquiet with
      | same hview => exact hview ▸ h.room
      | leaves t ht hview => exact hview ▸ h.room.leave ht
      | lowers n hn hview => exact hview ▸ h.room.lower hn
    · exact hview ▸ h.room.enter (ticket_of_begins hbegins)
  exchange _ := (step_cases h hs).1.ok h.exchange

/-- **Run.** -/
theorem inv_of_reach (h : Reach step ok pthreadCondInit s) : Inv s :=
  h.invariant Inv inv_init fun _ _ _ hinv _ hs => inv_step hinv hs

/-- **A step undoes a wake-up** exactly if it is not admitted. -/
theorem kept_step_iff (h : Inv s) (hkept : Kept s) (hs : step s a = some s') : Kept s' ↔ StepOk s a := by
  rw [← kept_view] at hkept ⊢
  rcases (step_cases h hs).2 with ⟨hno, hquiet⟩ | ⟨t, hbegins, hview⟩
  · have hok : StepOk s a := by
      cases a with
      | next t => exact fun hadd => absurd ⟨rfl, hadd⟩ (hno t)
      | wait t | signal t | broadcast t => trivial
    refine iff_of_true ?_ hok
    cases hquiet with
    | same hview => exact hview ▸ hkept
    | leaves t ht hview => exact hview ▸ Tickets.kept_leave hkept
    | lowers n hn hview => exact hview ▸ Tickets.kept_lower hn hkept
  · rw [hview, Tickets.kept_enter_iff h.room hkept (ticket_of_begins hbegins)]
    obtain ⟨rfl, hadd⟩ := hbegins
    exact ⟨fun hall _ => hall, fun hok => hok hadd⟩

/-- **A broadcast enables every wait.** -/
theorem broadcast_enables (h : Inv s) (hpc : s.pc t = .broadcast) (hs : step s (.next t) = some s') (hu : (s.pc u).ticket = some val) :
    s'.enabled u = true := by
  simp only [step, nextStep, hpc] at hs
  cases hs
  rw [← view_enabled, view_wake, view_setPc (by rw [hpc]; rfl)]
  have hpos : 0 < val := h.room.pos u val hu
  show mayGo 0 (s.pc u).ticket = true
  rw [hu]
  exact decide_eq_true hpos

/-- **Wake-ups of condition variables.**  In every run a broadcast enables the waits of all threads that wait.  In every
run of admitted steps a thread whose wait has been enabled stays enabled until it leaves, and a further step keeps that
exactly if it is admitted. -/
theorem wakeups_kept {s : State} (h : Reach step anyStep pthreadCondInit s) :
    (∀ t s', s.pc t = .broadcast → step s (.next t) = some s' →
      ∀ u val, (s.pc u).ticket = some val → s'.enabled u = true) ∧ (Reach step StepOk pthreadCondInit s →
      Kept s ∧ ∀ a s', step s a = some s' → (Kept s' ↔ StepOk s a)) := by
  refine ⟨fun t s' hpc hs u val hu => broadcast_enables (inv_of_reach h) hpc hs hu, fun hok => ?_⟩
  have hboth : Inv s ∧ Kept s := by
    refine hok.invariant (fun s => Inv s ∧ Kept s) ⟨inv_init, nofun⟩ ?_
    rintro r a r' ⟨hinv, hkept⟩ hadmitted hs
    exact ⟨inv_step hinv hs, (kept_step_iff hinv hkept hs).mpr hadmitted⟩
  exact ⟨hboth.2, fun a s' hs => kept_step_iff hboth.1 hboth.2 hs⟩

def three : Handle := ⟨3, by decide, by decide⟩

/-- A thread waits, and another one signals. -/
def signalled : List Act := [.wait one, .next one, .next one, .signal two, .next two, .next two]

theorem wakeups_kept_signal : ∃ s, Reach step StepOk pthreadCondInit s ∧
    (Kept s ∧ ∀ a s', step s a = some s' → (Kept s' ↔ StepOk s a)) ∧ s.woken one = true ∧ s.enabled one = true := by
  have hnone : ∀ u, State.enabled (pthreadCondInit.setPc one .waitAdd) u = false := by
    intro u
    rw [enabled_eq, congrFun (ticket_setPc pthreadCondInit one .waitAdd) u]
    by_cases hu : u = one
    · rw [hu]
      rfl
    · rw [update_of_ne hu]
      rfl
  obtain ⟨s, hreach, hs⟩ := Reach.of_exec_check step StepOk signalled pthreadCondInit
    (fun s => s.woken one && s.enabled one)
    ⟨trivial, fun _ u hu => Bool.noConfusion ((hnone u).symm.trans hu), nofun, trivial, nofun, nofun, trivial⟩
    (by decide)
  have hany : Reach step anyStep pthreadCondInit s := hreach.mono fun _ _ _ => trivial
  exact ⟨s, hreach, (wakeups_kept hany).2 hreach, and_eq_true_iff.mp hs⟩

/-- **A third thread that begins to wait** puts the thread that has been woken to sleep again. -/
theorem wakeup_lost : ∃ s s', Reach step anyStep pthreadCondInit s ∧ s.enabled one = true ∧ s.pc three = .waitAdd ∧
    step s (.next three) = some s' ∧ s'.pc one = .waiting 1 ∧ s'.enabled one = false ∧ ¬ Kept s' := by
  obtain ⟨s, hreach, hs⟩ := Reach.of_exec_check step anyStep (signalled ++ [.wait three]) pthreadCondInit
    (fun s => s.enabled one && s.pc three = .waitAdd &&
      (step s (.next three)).any fun s' => s'.pc one = .waiting 1 && !s'.enabled one && s'.woken one)
    (guarded_anyStep _ _ _) (by decide)
  simp only [and_eq_true, decide_eq_true_eq, Option.any_eq_true, not_eq_true'] at hs
  obtain ⟨⟨henabled, hthree⟩, s', hstep, ⟨hwaits, hno⟩, hwoken⟩ := hs
  refine ⟨s, s', hreach, henabled, hthree, hstep, hwaits, hno, fun hkept => ?_⟩
  rw [hkept one hwoken] at hno
  exact Bool.noConfusion hno

end Btos.User.Newlib.PthreadCond
