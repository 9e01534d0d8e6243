import Btos.Kernel.Atoms
import Btos.Lib.Transition

/-!
# POSIX semaphores over kernel atoms

`newlib/libc/sys/btos/pthread_sem.c` keeps a semaphore in one atom.  `sem_wait` and `sem_trywait`
read a positive value `val` and then try to exchange it for `val - 1`; they take the attempt for a
success when the returned value **is** `val - 1`.  The kernel returns the value after the attempt, so
an attempt that lost against another thread that went from `val` to `val - 1` is also taken for a
success: two waiters leave, and the count went down once.

Each call of the atom functions is one step of the thread that makes it, and any threads may be
anywhere in their calls.  A call is over with its last atom step: nothing after it touches the atom.

* **`Inv`** — value plus successes is the initial value plus posts;
* **`counts_of_stepOk`** — that is so along every run in which no exchange is attempted on an atom
  that holds exactly `val - 1`, and no post is made on the largest 64-bit value; and a step from such
  a state keeps the count exactly when it is such a step.
-/

namespace Btos.User.Semaphore

open Kernel.Atoms Lib.Transition Lib.Word

/-- Where a thread is in the semaphore code; `val` is the local variable of that name. -/
inductive Pc where
  | idle
  /-- `sem_wait`, before `bt_wait_atom`. -/
  | wait
  /-- `sem_wait`, before `bt_cmpxchg_atom`. -/
  | waitExchange (val : ℕ)
  /-- `sem_trywait`, before `bt_read_atom`. -/
  | tryWait
  /-- `sem_trywait`, before `bt_cmpxchg_atom`. -/
  | tryExchange (val : ℕ)
  /-- `sem_post`, before `bt_modify_atom`. -/
  | post
  deriving DecidableEq, Repr

/-- The atom of the semaphore, the threads, and the two numbers the property is about. -/
structure State where
  atom : Atom
  pc : ℕ → Pc
  successes : ℕ
  posts : ℕ

/-- `sem_init` with an `unsigned int` value, before any call. -/
def semInit (n : Fin (2 ^ 32)) : State where
  atom := newAtom n
  pc := fun _ => .idle
  successes := 0
  posts := 0

inductive Act where
  | semWait (t : ℕ)
  | semTryWait (t : ℕ)
  | semPost (t : ℕ)
  /-- The next atom call of the call that `t` is in. -/
  | atomStep (t : ℕ)
  deriving Repr

def State.setPc (s : State) (t : ℕ) (p : Pc) : State :=
  { s with pc := Function.update s.pc t p }

/-- `bt_cmpxchg_atom(*sem, val, val - 1)`, then the comparison `nval == val - 1`: on success the
call returns, else the thread goes to `retry`. -/
def exchange (s : State) (t val : ℕ) (retry : Pc) : State :=
  let atom := s.atom.compareExchange val (sub64 val 1)
  if atom.value = sub64 val 1 then
    { s.setPc t .idle with atom := atom, successes := s.successes + 1 }
  else { s.setPc t retry with atom := atom }

/-- One atom call of thread `t`. -/
def atomStep (s : State) (t : ℕ) : Option State :=
  match s.pc t with
  | .idle => none
  | .wait =>
      -- `bt_wait_atom` returns once the value is greater than zero
      if s.atom.waitBlockCheck .greaterThan 0 then
        let val := s.atom.value
        some (s.setPc t (if 0 < val then .waitExchange val else .wait))
      else none
  | .waitExchange val => some (exchange s t val .wait)
  | .tryWait =>
      let val := s.atom.value
      -- a zero value ends the call with `EAGAIN`
      some (s.setPc t (if 0 < val then .tryExchange val else .idle))
  | .tryExchange val => some (exchange s t val .idle)
  | .post => some { s.setPc t .idle with atom := s.atom.modify .add 1, posts := s.posts + 1 }

def startCall (s : State) (t : ℕ) (p : Pc) : Option State :=
  if s.pc t = .idle then some (s.setPc t p) else none

def step (s : State) : Act → Option State
  | .semWait t => startCall s t .wait
  | .semTryWait t => startCall s t .tryWait
  | .semPost t => startCall s t .post
  | .atomStep t => atomStep s t

/-- The atom call at `p` neither attempts an exchange on an atom that holds exactly the value it
would store, nor adds to the largest value. -/
def CallOk (a : Atom) : Pc → Prop
  | .waitExchange val => a.value + 1 ≠ val
  | .tryExchange val => a.value + 1 ≠ val
  | .post => a.value + 1 ≠ 2 ^ 64
  | _ => True

instance decidableCallOk (a : Atom) : (p : Pc) → Decidable (CallOk a p)
  | .waitExchange _ | .tryExchange _ | .post => inferInstanceAs (Decidable (_ ≠ _))
  | .idle | .wait | .tryWait => .isTrue trivial

def StepOk (s : State) : Act → Prop
  | .atomStep t => CallOk s.atom (s.pc t)
  | _ => True

instance decidableStepOk (s : State) : (a : Act) → Decidable (StepOk s a)
  | .atomStep t => inferInstanceAs (Decidable (CallOk s.atom (s.pc t)))
  | .semWait _ | .semTryWait _ | .semPost _ => .isTrue trivial

/-! ### The count along a run -/

/-- What a thread about to exchange has read. -/
def Pc.read : Pc → Option ℕ
  | .waitExchange val | .tryExchange val => some val
  | _ => none

/-- The count is right, and a thread about to exchange has read a positive 64-bit value. -/
structure Inv (n : ℕ) (s : State) : Prop where
  count : s.atom.value + s.successes = n + s.posts
  reads : ∀ t val, (s.pc t).read = some val → 0 < val ∧ val < 2 ^ 64

theorem inv_semInit (n : Fin (2 ^ 32)) : Inv n (semInit n) where
  count := by
    have hn : (n : ℕ) < 2 ^ 64 := Nat.lt_trans n.isLt (by decide)
    simp only [semInit, newAtom_value hn]
  reads := by simp [semInit, Pc.read]

/-- **Frame.**  Moving one thread keeps the invariant when the numbers agree with it and the
thread's new place holds a value it may hold. -/
theorem Inv.move (h : Inv n s) (t : ℕ) (p : Pc) (a : Atom) (k m : ℕ) (hc : a.value + k = n + m)
    (hp : ∀ val, p.read = some val → 0 < val ∧ val < 2 ^ 64) :
    Inv n { s.setPc t p with atom := a, successes := k, posts := m } where
  count := hc
  reads u val hread := by
    have hread : (Function.update s.pc t p u).read = some val := hread
    by_cases hu : u = t
    · subst hu
      rw [Function.update_self] at hread
      exact hp val hread
    · rw [Function.update_of_ne hu] at hread
      exact h.reads u val hread

theorem exchange_hit (retry : Pc) (hv : s.atom.value = val) (hpos : 0 < val) (hlt : val < 2 ^ 64) :
    ∃ a : Atom, a.value + 1 = s.atom.value ∧ exchange s t val retry =
      { s.setPc t .idle with atom := a, successes := s.successes + 1, posts := s.posts } := by
  have hsub : sub64 val 1 = val - 1 := sub64_of_le hlt hpos
  have hval := compareExchange_hit hv (sub64_lt val 1)
  refine ⟨s.atom.compareExchange val (sub64 val 1), by omega, ?_⟩
  simp only [exchange, hval, if_true]
  rfl

/-- An exchange that found another value changes nothing, and is a success for its caller exactly
when that value is the one it would have stored. -/
theorem exchange_miss (hv : s.atom.value ≠ val) (hpos : 0 < val) (hlt : val < 2 ^ 64) :
    exchange s t val retry = if s.atom.value + 1 = val then
      { s.setPc t .idle with atom := s.atom, successes := s.successes + 1, posts := s.posts }
    else { s.setPc t retry with atom := s.atom, successes := s.successes, posts := s.posts } := by
  have hsub : sub64 val 1 = val - 1 := sub64_of_le hlt hpos
  simp only [exchange, compareExchange_miss hv, hsub]
  by_cases hs : s.atom.value + 1 = val
  · rw [if_pos (by omega), if_pos hs]
    rfl
  · rw [if_neg (by omega), if_neg hs]
    rfl

/-- **The exchange, both ways.**  It keeps the invariant when the atom does not hold `val - 1`, and
breaks the count when it does. -/
theorem inv_exchange (h : Inv n s) (t : ℕ) (retry : Pc)
    (hpos : 0 < val) (hlt : val < 2 ^ 64) (hretry : retry.read = none) :
    (s.atom.value + 1 ≠ val → Inv n (exchange s t val retry)) ∧ (s.atom.value + 1 = val →
      (exchange s t val retry).atom.value + (exchange s t val retry).successes
        = n + (exchange s t val retry).posts + 1) := by
  have hcount := h.count
  by_cases hv : s.atom.value = val
  · obtain ⟨a, ha, heq⟩ := exchange_hit retry hv hpos hlt
    rw [heq]
    refine ⟨fun _ => h.move t .idle a _ _ (by omega) (by simp [Pc.read]), fun hs => ?_⟩
    omega
  · rw [exchange_miss hv hpos hlt]
    constructor
    · intro hs
      rw [if_neg hs]
      exact h.move t retry _ _ _ hcount (by simp [hretry])
    · intro hs
      rw [if_pos hs]
      show s.atom.value + (s.successes + 1) = n + s.posts + 1
      omega

/-- **Step.**  A step keeps the invariant if it is admitted, and breaks the count if it is not. -/
theorem inv_step (h : Inv n s) (a : Act) (hs : step s a = some s') : (StepOk s a → Inv n s') ∧
    (¬ StepOk s a → s'.atom.value + s'.successes ≠ n + s'.posts) := by
  have hstart : ∀ {t : ℕ} {p : Pc}, startCall s t p = some s' → p.read = none → Inv n s' := by
    intro t p hc hp
    unfold startCall at hc
    split at hc
    · cases hc
      exact h.move t p _ _ _ h.count (by simp [hp])
    · cases hc
  cases a with
  | semWait t | semTryWait t | semPost t => exact ⟨fun _ => hstart hs rfl, fun hno => absurd trivial hno⟩
  | atomStep t =>
    simp only [step, atomStep] at hs
    simp only [StepOk]
    cases hpc : s.pc t with
    | idle => rw [hpc] at hs; cases hs
    | wait =>
      rw [hpc] at hs
      dsimp only at hs
      split at hs
      · cases hs
        refine ⟨fun _ => h.move t _ _ _ _ h.count ?_, fun hno => absurd trivial hno⟩
        intro v hv
        split at hv
        · cases hv
          exact ⟨‹_›, s.atom.value_lt⟩
        · cases hv
      · cases hs
    | waitExchange val | tryExchange val =>
      rw [hpc] at hs
      obtain ⟨retry, hretry, rfl⟩ : ∃ retry : Pc, retry.read = none ∧ exchange s t val retry = s' :=
        ⟨_, by rfl, Option.some.inj hs⟩
      obtain ⟨hpos, hlt⟩ := h.reads t val (by rw [hpc]; rfl)
      obtain ⟨hkeep, hbreak⟩ := inv_exchange h t retry hpos hlt hretry
      refine ⟨hkeep, fun hno => ?_⟩
      have := hbreak (not_not.mp hno)
      omega
    | tryWait =>
      rw [hpc] at hs
      cases hs
      refine ⟨fun _ => h.move t _ _ _ _ h.count ?_, fun hno => absurd trivial hno⟩
      intro v hv
      split at hv
      · cases hv
        exact ⟨‹_›, s.atom.value_lt⟩
      · cases hv
    | post =>
      rw [hpc] at hs
      cases hs
      have hcount := h.count
      have hlt := s.atom.value_lt
      have hval := modify_add_value s.atom 1
      constructor
      · intro hok
        have hok' : s.atom.value + 1 ≠ 2 ^ 64 := hok
        rw [add64_of_lt (by omega)] at hval
        exact h.move t .idle _ s.successes (s.posts + 1) (by omega) (by simp [Pc.read])
      · intro hno
        have hno' : s.atom.value + 1 = 2 ^ 64 := not_not.mp hno
        have hzero : add64 s.atom.value 1 = 0 := by rw [add64, hno', Nat.mod_self]
        show (s.atom.modify .add 1).value + s.successes ≠ n + (s.posts + 1)
        omega

/-- **Run.** -/
theorem inv_of_reach (h : Reach step StepOk (semInit n) s) : Inv n s :=
  h.invariant (Inv n) (inv_semInit n) fun _ a _ hs hok hstep => (inv_step hs a hstep).1 hok

/-- **The semaphore counts along every run without a lost exchange, and only there.**  In every
state reached, the successful waits are at most the initial value plus the posts, and between calls
the atom holds the initial value plus posts minus successes; and a step keeps that count exactly
when it neither attempts an exchange on an atom that holds what it would store, nor wraps. -/
theorem counts_of_stepOk {n : Fin (2 ^ 32)} {s : State} (h : Reach step StepOk (semInit n) s) :
    s.successes ≤ n + s.posts ∧ ((∀ t, s.pc t = .idle) → (s.atom.value : ℤ) = (n : ℕ) + s.posts - s.successes) ∧
    ∀ a s', step s a = some s' → (s'.atom.value + s'.successes = n + s'.posts ↔ StepOk s a) := by
  have hinv := inv_of_reach h
  have hcount := hinv.count
  refine ⟨by omega, fun _ => by omega, fun a s' hs => ?_⟩
  obtain ⟨hkeep, hbreak⟩ := inv_step hinv a hs
  refine ⟨fun heq => ?_, fun hok => (hkeep hok).count⟩
  by_contra hno
  exact hbreak hno heq

/-- One unit, two waiters: the second reads after the first took it, and waits for the post. -/
theorem counts_of_stepOk_handoff : ∃ s, Reach step StepOk (semInit 1) s ∧
    s.successes = 2 ∧ s.posts = 1 ∧ s.successes ≤ 1 + s.posts := by
  have hrun := Reach.of_exec step StepOk
    [.semWait 1, .atomStep 1, .semWait 2, .atomStep 1, .semPost 1, .atomStep 1, .atomStep 2,
      .atomStep 2] (semInit 1) rfl (by decide)
  exact ⟨_, hrun, rfl, rfl, (counts_of_stepOk hrun).1⟩

/-- Two waiters that both read the value 1 both succeed on a semaphore of one unit. -/
theorem two_waiters_one_unit : ∃ s, Reach step anyStep (semInit 1) s ∧
    s.successes = 2 ∧ s.posts = 0 ∧ s.atom.value = 0 ∧ ¬ s.successes ≤ 1 + s.posts := by
  have hrun := Reach.of_exec step anyStep
    [.semWait 1, .semWait 2, .atomStep 1, .atomStep 2, .atomStep 1, .atomStep 2] (semInit 1) rfl
    (guarded_anyStep _ _ _)
  exact ⟨_, hrun, rfl, rfl, rfl, by decide⟩

end Btos.User.Semaphore
