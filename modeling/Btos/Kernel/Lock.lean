import Mathlib.Data.PNat.Basic
import Btos.Lib.Transition
import Btos.Lib.Word

/-!
# The kernel lock: owner, recursion count, and what misuse from user space does to them

`kernel/locks.cpp` keeps, for one lock, the id of the owning thread (`0` when free), a 32-bit
recursion count and a `waiting` flag.  Every operation runs to its end once it starts, except at the
two places where the code itself waits: the block loop of `TakeExclusive` and the compare-and-swap
loop of `Release`.  A thread that stands at one of them is recorded in `phase`, and goes on by a
step of its own.

`RaiseUserLockingError` marks the process for termination and **returns**, so both user-space error
branches fall through into the normal path:

* a second `TakeExclusive(true)` by the owner skips the wait loop and meets a non-zero count;
* a `Release(true)` by a thread that is not the owner decrements the owner's count, and spins in the
  compare-and-swap when that reaches zero.

`balance` is bookkeeping of the model, not a field of the source: for each thread, its takes minus
its releases, a `Transfer` handing the giver's on with the lock.

* **`Sound`** — the count is zero exactly when the lock is free, it is the owner's balance, and the
  panic for a newly acquired lock with a non-zero count has not happened.
* **`sound_iff_stepOk`** — a step from a soundly reached state keeps it exactly when it is neither
  of the two misuses and does not wrap the 32-bit count.
-/

namespace Btos.Kernel.Lock

open Lib.Transition Lib.Word Function Option

/-- Thread ids come from `++idCounter`, so none is zero. -/
abbrev ThreadId := ℕ+

/-- Where a thread stands in this lock's code. -/
inductive Phase where
  /-- Outside the lock's code. -/
  | idle
  /-- In `SetBlock` inside `TakeExclusive`. -/
  | blocked
  /-- Woken by `BlockCheck`, about to retry the compare-and-swap of `TakeExclusive`. -/
  | retry
  /-- In the compare-and-swap loop of `Release`. -/
  | spinning
  deriving DecidableEq, Repr

/-- The lock, the threads around it, and the panic that stopped the machine, if any. -/
structure World where
  owningThreadID : ℕ
  recursionCount : ℕ
  waiting : Bool
  schedulerReady : Bool
  phase : ThreadId → Phase
  lockCount : ThreadId → ℤ
  raised : ThreadId → Bool
  balance : ThreadId → ℤ
  panicked : Option String

/-- A lock as `new Lock()` makes it, before the scheduler runs. -/
def init : World where
  owningThreadID := 0
  recursionCount := 0
  waiting := false
  schedulerReady := false
  phase := fun _ => .idle
  lockCount := fun _ => 0
  raised := fun _ => false
  balance := fun _ => 0
  panicked := none

def newlyAcquired : String := "(LOCK) Newly acquired lock with non-zero recursionCount!"

def panic (w : World) (msg : String) : World := { w with panicked := some msg }

/-- `RaiseUserLockingError`: the process of `t` is marked for termination, and control returns. -/
def raiseUserLockingError (w : World) (t : ThreadId) : World :=
  { w with raised := update w.raised t true }

def setPhase (w : World) (t : ThreadId) (p : Phase) : World :=
  { w with phase := update w.phase t p }

def addLockCount (w : World) (t : ThreadId) (d : ℤ) : World :=
  { w with lockCount := update w.lockCount t (w.lockCount t + d) }

def addBalance (w : World) (t : ThreadId) (d : ℤ) : World :=
  { w with balance := update w.balance t (w.balance t + d) }

/-- The lines of `TakeExclusive` and `TryTakeExclusive` after the lock's owner has been set. -/
def finishTake (w : World) (t : ThreadId) : World :=
  if w.recursionCount ≠ 0 then panic { w with waiting := false } newlyAcquired
  else addBalance (addLockCount (setPhase
    { w with waiting := false, recursionCount := add32 w.recursionCount 1 } t .idle) t 1) t 1

/-- One pass of the wait loop of `TakeExclusive`: take the lock if it is free, else block. -/
def takeLoop (w : World) (t : ThreadId) : World :=
  if w.owningThreadID = 0 then finishTake { w with owningThreadID := t } t
  else setPhase w t .blocked

def takeExclusive (w : World) (t : ThreadId) (forUserspace : Bool) : World :=
  if !w.schedulerReady then w
  else if w.owningThreadID ≠ 0 ∧ w.owningThreadID = t then
    -- the error routine returns, and the wait loop is skipped since the owner is `t` already
    if forUserspace then finishTake (raiseUserLockingError w t) t
    else panic w "(LOCK) Attempt to take lock that's already held!"
  else takeLoop w t

def takeRecursive (w : World) (t : ThreadId) : World :=
  if !w.schedulerReady then w
  else if w.owningThreadID = t then
    addBalance { w with recursionCount := add32 w.recursionCount 1 } t 1
  else takeExclusive w t false

def tryTakeExclusive (w : World) (t : ThreadId) : World × Bool :=
  if !w.schedulerReady then (w, false)
  else if w.owningThreadID ≠ 0 ∧ w.owningThreadID = t then (w, false)
  else if w.owningThreadID ≠ 0 then (w, false)
  else (finishTake { w with owningThreadID := t } t, true)

def tryTakeRecursive (w : World) (t : ThreadId) : World × Bool :=
  if !w.schedulerReady then (w, false)
  else if w.owningThreadID ≠ 0 ∧ w.owningThreadID = t then
    (addBalance { w with recursionCount := add32 w.recursionCount 1 } t 1, true)
  else tryTakeExclusive w t

/-- The compare-and-swap of `Release` that gives the lock up, or another turn of its loop. -/
def releaseLoop (w : World) (t : ThreadId) : World :=
  if w.owningThreadID = t then
    addLockCount (setPhase { w with owningThreadID := 0 } t .idle) t (-1)
  else setPhase w t .spinning

/-- `Release` after its ownership check. -/
def finishRelease (w : World) (t : ThreadId) : World :=
  let w := addBalance { w with recursionCount := sub32 w.recursionCount 1 } t (-1)
  if w.recursionCount = 0 then releaseLoop w t else w

def release (w : World) (t : ThreadId) (forUserspace : Bool) : World :=
  if !w.schedulerReady then w
  else if w.owningThreadID ≠ t then
    -- here too the error routine returns
    if forUserspace then finishRelease (raiseUserLockingError w t) t
    else panic w "(LOCK) Attempt to release lock that isn't held!\n"
  else finishRelease w t

def transfer (w : World) (t dest : ThreadId) : World :=
  if !w.schedulerReady then panic w "GetNullThread!"
  else if w.owningThreadID ≠ t then panic w "(LOCK) Improper transfer!"
  else
    let given := w.balance t
    addBalance (addBalance (addLockCount (addLockCount { w with owningThreadID := dest } t (-1))
      dest 1) t (-given)) dest given

/-- `BlockCheck` of a thread blocked in `TakeExclusive`, as the scheduler evaluates it. -/
def blockCheck (w : World) (t : ThreadId) : World :=
  if w.owningThreadID = 0 then setPhase { w with waiting := true } t .retry
  else { w with waiting := true }

/-- What can happen: a thread calls an operation, a waiting thread goes on, or the scheduler
starts. -/
inductive Act where
  | schedulerInit
  | takeExclusive (t : ThreadId) (forUserspace : Bool)
  | takeRecursive (t : ThreadId)
  | tryTakeExclusive (t : ThreadId)
  | tryTakeRecursive (t : ThreadId)
  | release (t : ThreadId) (forUserspace : Bool)
  | transfer (t dest : ThreadId)
  | blockCheck (t : ThreadId)
  | retry (t : ThreadId)
  | spin (t : ThreadId)
  deriving Repr

/-- `w` after `f`, if `t` stands in phase `p`. -/
def whenPhase (w : World) (t : ThreadId) (p : Phase) (next : World) : Option World :=
  if w.phase t = p then some next else none

def act (w : World) : Act → Option World
  | .schedulerInit => some { w with schedulerReady := true }
  | .takeExclusive t u => whenPhase w t .idle (takeExclusive w t u)
  | .takeRecursive t => whenPhase w t .idle (takeRecursive w t)
  | .tryTakeExclusive t => whenPhase w t .idle (tryTakeExclusive w t).1
  | .tryTakeRecursive t => whenPhase w t .idle (tryTakeRecursive w t).1
  | .release t u => whenPhase w t .idle (release w t u)
  | .transfer t dest => whenPhase w t .idle (transfer w t dest)
  | .blockCheck t => whenPhase w t .blocked (blockCheck w t)
  | .retry t => whenPhase w t .retry (takeLoop w t)
  | .spin t => whenPhase w t .spinning (releaseLoop w t)

/-- A panic halts the machine: nothing happens after it. -/
def step (w : World) (a : Act) : Option World :=
  if w.panicked.isSome then none else act w a

/-! ### The property, and the steps that keep it -/

/-- The count is zero exactly when the lock is free, it is the owner's takes minus releases, and
the panic for a newly acquired lock with a non-zero count has not happened. -/
def Sound (w : World) : Prop :=
  (w.recursionCount = 0 ↔ w.owningThreadID = 0) ∧
  (∀ t : ThreadId, w.owningThreadID = t → (w.recursionCount : ℤ) = w.balance t) ∧
  w.panicked ≠ some newlyAcquired

/-- The steps that are neither of the two misuses from user space and do not wrap the count. -/
def StepOk (w : World) : Act → Prop
  | .takeExclusive t true => ¬(w.schedulerReady = true ∧ w.owningThreadID = t)
  | .release t true => ¬(w.schedulerReady = true ∧ w.owningThreadID ≠ t)
  | .takeRecursive t =>
      ¬(w.schedulerReady = true ∧ w.owningThreadID = t ∧ w.recursionCount = 2 ^ 32 - 1)
  | .tryTakeRecursive t =>
      ¬(w.schedulerReady = true ∧ w.owningThreadID = t ∧ w.recursionCount = 2 ^ 32 - 1)
  | _ => True

instance decidableStepOk (w : World) : (a : Act) → Decidable (StepOk w a)
  | .takeExclusive _ true | .release _ true | .takeRecursive _ | .tryTakeRecursive _ =>
      inferInstanceAs (Decidable (¬ _))
  | .takeExclusive _ false | .release _ false | .schedulerInit | .tryTakeExclusive _ | .transfer _ _
  | .blockCheck _ | .retry _ | .spin _ => .isTrue trivial

/-- What every soundly reached state satisfies: beyond `Sound`, no thread spins, the count fits its
32 bits, and a thread that is not the owner has nothing outstanding. -/
structure Inv (w : World) : Prop where
  quiet : w.panicked ≠ some newlyAcquired
  noSpin : ∀ t, w.phase t ≠ .spinning
  free : w.owningThreadID = 0 → w.recursionCount = 0
  held : ∀ t : ThreadId, w.owningThreadID = t →
    0 < w.recursionCount ∧ w.recursionCount < 2 ^ 32 ∧ (w.recursionCount : ℤ) = w.balance t
  other : ∀ t : ThreadId, w.owningThreadID ≠ t → w.balance t = 0

variable {w : World}

theorem Inv.sound (h : Inv w) : Sound w := by
  refine ⟨⟨fun hr => ?_, h.free⟩, fun t ht => (h.held t ht).2.2, h.quiet⟩
  -- a non-zero owner is some thread, and its count is positive
  by_contra ho
  have hpos := (h.held ⟨w.owningThreadID, Nat.pos_of_ne_zero ho⟩ rfl).1
  omega

theorem inv_init : Inv init where
  quiet := by simp [init]
  noSpin := by simp [init]
  free := fun _ => rfl
  held := fun t ht => absurd ht.symm t.ne_zero
  other := fun _ _ => rfl

/-- **Frame.**  The invariant only reads owner, count, balances, phases and the panic. -/
theorem Inv.frame (h : Inv w) (ho : w'.owningThreadID = w.owningThreadID)
    (hr : w'.recursionCount = w.recursionCount) (hb : w'.balance = w.balance)
    (hp : w'.panicked ≠ some newlyAcquired) (hs : ∀ t, w'.phase t ≠ .spinning) : Inv w' where
  quiet := hp
  noSpin := hs
  free := by rw [ho, hr]; exact h.free
  held := by rw [ho, hr, hb]; exact h.held
  other := by rw [ho, hb]; exact h.other

theorem setPhase_noSpin (h : ∀ u, w.phase u ≠ .spinning) (t : ThreadId) (hp : p ≠ .spinning)
    (u : ThreadId) : (setPhase w t p).phase u ≠ .spinning := by
  simp only [setPhase]
  by_cases hu : u = t
  · subst hu
    rwa [update_self]
  · rw [update_of_ne hu]
    exact h u

theorem of_whenPhase (h : whenPhase w t p next = some w') : w.phase t = p ∧ next = w' := by
  obtain ⟨hp, hn⟩ := ite_none_right_eq_some.1 h
  exact ⟨hp, some.inj hn⟩

theorem act_of_step (h : step w a = some w') : act w a = some w' := (ite_none_left_eq_some.1 h).2

theorem inv_panic (h : Inv w) (hm : msg ≠ newlyAcquired) : Inv (panic w msg) :=
  h.frame rfl rfl rfl (by simpa [panic] using hm) h.noSpin

/-- **A lock with an owner**: the count is the owner's balance, and the others have none. -/
theorem Inv.of_owner {t : ThreadId} (hquiet : w.panicked ≠ some newlyAcquired) (hspin : ∀ u, w.phase u ≠ .spinning)
    (ho : w.owningThreadID = t)
    (hcount : 0 < w.recursionCount ∧ w.recursionCount < 2 ^ 32 ∧ (w.recursionCount : ℤ) = w.balance t)
    (hother : ∀ u, u ≠ t → w.balance u = 0) : Inv w := by
  refine ⟨hquiet, hspin, fun hz => absurd (ho.symm.trans hz) t.ne_zero, fun u hu => ?_, fun u hu => ?_⟩
  · obtain rfl : u = t := PNat.coe_inj.mp (hu.symm.trans ho)
    exact hcount
  · exact hother u fun e => hu (by rw [e, ho])

section

variable (h : Inv w)
include h

theorem Inv.balance_of_ne {t u : ThreadId} (ho : w.owningThreadID = t) (hu : u ≠ t) : w.balance u = 0 :=
  h.other u fun e => hu (PNat.coe_inj.mp (e.symm.trans ho))

theorem inv_finishTake (hfree : w.owningThreadID = 0) (t : ThreadId) :
    Inv (finishTake { w with owningThreadID := t } t) := by
  have hr : w.recursionCount = 0 := h.free hfree
  have hb : ∀ u, w.balance u = 0 := fun u =>
    h.other u (by rw [hfree]; exact u.ne_zero.symm)
  simp only [finishTake, hr, ne_eq, not_true_eq_false, if_false]
  refine .of_owner h.quiet (setPhase_noSpin h.noSpin t (by decide)) rfl ?_ fun u hu => ?_
  · have hone : add32 0 1 = 1 := rfl
    simp [addBalance, addLockCount, setPhase, hb, hone]
  · simp [addBalance, addLockCount, setPhase, hb, hu]

theorem inv_takeLoop (t : ThreadId) : Inv (takeLoop w t) := by
  unfold takeLoop
  split
  · rename_i hfree
    exact inv_finishTake h hfree t
  · exact h.frame rfl rfl rfl h.quiet (setPhase_noSpin h.noSpin t (by decide))

theorem inv_recurse {t : ThreadId} (ho : w.owningThreadID = t)
    (hr : w.recursionCount ≠ 2 ^ 32 - 1) :
    Inv (addBalance { w with recursionCount := add32 w.recursionCount 1 } t 1) := by
  obtain ⟨hpos, hlt, hbal⟩ := h.held t ho
  have hmod : add32 w.recursionCount 1 = w.recursionCount + 1 := add32_of_lt (by omega)
  refine .of_owner h.quiet h.noSpin ho ?_ fun u hu => ?_
  · simp only [addBalance, hmod, update_self]
    omega
  · simpa [addBalance, hu] using h.balance_of_ne ho hu

theorem inv_finishRelease {t : ThreadId} (ho : w.owningThreadID = t) : Inv (finishRelease w t) := by
  obtain ⟨hpos, hlt, hbal⟩ := h.held t ho
  have hmod : sub32 w.recursionCount 1 = w.recursionCount - 1 := sub32_of_le hlt hpos
  simp only [finishRelease, addBalance, hmod]
  split
  · rename_i hlast
    simp only [releaseLoop, ho, if_true]
    refine ⟨h.quiet, setPhase_noSpin h.noSpin t (by decide), fun _ => hlast,
      fun u hu => absurd hu.symm u.ne_zero, ?_⟩
    intro u _
    by_cases hu : u = t
    · subst hu
      simp only [addLockCount, setPhase, update_self]
      omega
    · simpa [addLockCount, setPhase, hu] using h.balance_of_ne ho hu
  · refine .of_owner h.quiet h.noSpin ho ?_ fun u hu => ?_
    · simp only [update_self]
      omega
    · simpa [hu] using h.balance_of_ne ho hu

theorem inv_transfer (t dest : ThreadId) : Inv (transfer w t dest) := by
  unfold transfer
  split
  · exact inv_panic h (by decide)
  split
  · exact inv_panic h (by decide)
  rename_i ho
  rw [not_not] at ho
  obtain ⟨hpos, hlt, hbal⟩ := h.held t ho
  refine .of_owner h.quiet h.noSpin rfl ⟨hpos, hlt, ?_⟩ fun u hu => ?_
  · by_cases hdest : dest = t
    · subst hdest
      simpa [addBalance, addLockCount] using hbal
    · simpa [addBalance, addLockCount, hdest, h.balance_of_ne ho hdest] using hbal
  · by_cases hut : u = t
    · subst hut
      simp [addBalance, addLockCount, hu]
    · simp [addBalance, addLockCount, hu, hut, h.balance_of_ne ho hut]

theorem inv_takeExclusive (t : ThreadId) (u : Bool) (hok : StepOk w (.takeExclusive t u)) :
    Inv (takeExclusive w t u) := by
  unfold takeExclusive
  split
  · exact h
  rename_i hready
  split
  · rename_i ho
    cases u with
    | true => exact absurd ⟨by simpa using hready, ho.2⟩ hok
    | false => exact inv_panic h (by decide)
  · exact inv_takeLoop h t

theorem inv_tryTakeExclusive (t : ThreadId) : Inv (tryTakeExclusive w t).1 := by
  unfold tryTakeExclusive
  split
  · exact h
  split
  · exact h
  split
  · exact h
  · rename_i hfree
    rw [not_not] at hfree
    exact inv_finishTake h hfree t

/-- **Step.**  Every step that is no misuse keeps the invariant. -/
theorem inv_act (a : Act) (hok : StepOk w a) (hs : act w a = some w') : Inv w' := by
  cases a with
  | schedulerInit =>
    cases hs
    exact h.frame rfl rfl rfl h.quiet h.noSpin
  | takeExclusive t u =>
    obtain ⟨_, rfl⟩ := of_whenPhase hs
    exact inv_takeExclusive h t u hok
  | takeRecursive t =>
    obtain ⟨_, rfl⟩ := of_whenPhase hs
    unfold takeRecursive
    split
    · exact h
    rename_i hready
    split
    · rename_i ho
      exact inv_recurse h ho (fun hr => hok ⟨by simpa using hready, ho, hr⟩)
    · exact inv_takeExclusive h t false trivial
  | tryTakeExclusive t =>
    obtain ⟨_, rfl⟩ := of_whenPhase hs
    exact inv_tryTakeExclusive h t
  | tryTakeRecursive t =>
    obtain ⟨_, rfl⟩ := of_whenPhase hs
    unfold tryTakeRecursive
    split
    · exact h
    rename_i hready
    split
    · rename_i ho
      exact inv_recurse h ho.2 (fun hr => hok ⟨by simpa using hready, ho.2, hr⟩)
    · exact inv_tryTakeExclusive h t
  | release t u =>
    obtain ⟨_, rfl⟩ := of_whenPhase hs
    unfold release
    split
    · exact h
    rename_i hready
    split
    · rename_i ho
      cases u with
      | true => exact absurd ⟨by simpa using hready, ho⟩ hok
      | false => exact inv_panic h (by decide)
    · rename_i ho
      rw [not_not] at ho
      exact inv_finishRelease h ho
  | transfer t dest =>
    obtain ⟨_, rfl⟩ := of_whenPhase hs
    exact inv_transfer h t dest
  | blockCheck t =>
    obtain ⟨_, rfl⟩ := of_whenPhase hs
    unfold blockCheck
    split
    · exact h.frame rfl rfl rfl h.quiet (setPhase_noSpin h.noSpin t (by decide))
    · exact h.frame rfl rfl rfl h.quiet h.noSpin
  | retry t =>
    obtain ⟨_, rfl⟩ := of_whenPhase hs
    exact inv_takeLoop h t
  | spin t => exact absurd (of_whenPhase hs).1 (h.noSpin t)

end

/-- **Run.**  In every run without misuse the invariant holds in every state. -/
theorem inv_of_reach (h : Reach step StepOk init w) : Inv w :=
  h.invariant Inv inv_init fun _ a _ hw hok hs => inv_act hw a hok (act_of_step hs)

/-! ### Each misuse breaks the property at once -/

/-- A release by a thread that does not own the lock touches the owner's count and nothing else the
property reads of the owner. -/
theorem finishRelease_of_not_owner {t : ThreadId} (ho : w.owningThreadID ≠ t) :
    (finishRelease w t).owningThreadID = w.owningThreadID ∧
    (finishRelease w t).recursionCount = sub32 w.recursionCount 1 ∧
    ∀ o, o ≠ t → (finishRelease w t).balance o = w.balance o := by
  unfold finishRelease
  dsimp only [addBalance]
  split
  · rw [releaseLoop, if_neg ho]
    exact ⟨rfl, rfl, fun o hne => by simp [setPhase, hne]⟩
  · exact ⟨rfl, rfl, fun o hne => by simp [hne]⟩

/-- A release by a thread that does not own the lock takes one from the owner's count, or wraps the
count of a free lock. -/
theorem not_sound_finishRelease (h : Inv w) {t : ThreadId} (ho : w.owningThreadID ≠ t) :
    ¬ Sound (finishRelease w t) := by
  rintro ⟨hz, hbal, _⟩
  obtain ⟨howner, hcount, hkeep⟩ := finishRelease_of_not_owner ho
  rw [howner, hcount] at hz
  rw [howner, hcount] at hbal
  by_cases hfree : w.owningThreadID = 0
  · -- the count of a free lock becomes `2 ^ 32 - 1`
    have hwrap := hz.mpr hfree
    rw [h.free hfree, sub32_of_gt (by decide) (by decide)] at hwrap
    omega
  · -- the owner's balance is as before, its count is one less
    obtain ⟨o, hown⟩ : ∃ o : ThreadId, w.owningThreadID = o :=
      ⟨⟨w.owningThreadID, Nat.pos_of_ne_zero hfree⟩, rfl⟩
    obtain ⟨hpos, hlt, hold⟩ := h.held o hown
    have hnew := hbal o hown
    rw [hkeep o (fun e => ho (by rw [hown, e])), sub32_of_le hlt hpos] at hnew
    omega

theorem not_sound_wrap {t : ThreadId} (ho : w.owningThreadID = t) (hr : w.recursionCount = 2 ^ 32 - 1) :
    ¬ Sound (addBalance { w with recursionCount := add32 w.recursionCount 1 } t 1) := by
  rintro ⟨hz, _, _⟩
  have hzero : add32 w.recursionCount 1 = 0 := by rw [hr]; rfl
  have hfree := hz.mp hzero
  exact t.ne_zero (ho.symm.trans hfree)

theorem takeExclusive_held {t : ThreadId} (hready : w.schedulerReady = true) (ho : w.owningThreadID = t)
    (hpos : 0 < w.recursionCount) : (takeExclusive w t true).panicked = some newlyAcquired := by
  have hne : w.owningThreadID ≠ 0 := by rw [ho]; exact t.ne_zero
  rw [takeExclusive, if_neg (by simp [hready]), if_pos ⟨hne, ho⟩, finishTake,
    if_pos (show (raiseUserLockingError w t).recursionCount ≠ 0 from Nat.pos_iff_ne_zero.mp hpos)]
  rfl

theorem not_sound_of_not_stepOk (h : Inv w) (a : Act) (hok : ¬ StepOk w a)
    (hs : act w a = some w') : ¬ Sound w' := by
  cases a with
  | takeExclusive t u =>
    cases u with
    | false => exact absurd trivial hok
    | true =>
      obtain ⟨_, rfl⟩ := of_whenPhase hs
      obtain ⟨hready, ho⟩ := not_not.mp hok
      rintro ⟨_, _, hquiet⟩
      exact hquiet (takeExclusive_held hready ho (h.held t ho).1)
  | release t u =>
    cases u with
    | false => exact absurd trivial hok
    | true =>
      obtain ⟨_, rfl⟩ := of_whenPhase hs
      obtain ⟨hready, ho⟩ := not_not.mp hok
      have hraise : Inv (raiseUserLockingError w t) := h.frame rfl rfl rfl h.quiet h.noSpin
      rw [release, if_neg (by simp [hready]), if_pos ho]
      exact not_sound_finishRelease hraise ho
  | takeRecursive t =>
    obtain ⟨_, rfl⟩ := of_whenPhase hs
    obtain ⟨hready, ho, hr⟩ := not_not.mp hok
    rw [takeRecursive, if_neg (by simp [hready]), if_pos ho]
    exact not_sound_wrap ho hr
  | tryTakeRecursive t =>
    obtain ⟨_, rfl⟩ := of_whenPhase hs
    obtain ⟨hready, ho, hr⟩ := not_not.mp hok
    have hne : w.owningThreadID ≠ 0 := by rw [ho]; exact t.ne_zero
    rw [tryTakeRecursive, if_neg (by simp [hready]), if_pos ⟨hne, ho⟩]
    exact not_sound_wrap ho hr
  | schedulerInit | tryTakeExclusive t | transfer t dest | blockCheck t | retry t | spin t =>
    exact absurd trivial hok

/-- **The lock's count and owner agree in every run without misuse, and only there.**  Every state
reached by steps that are neither a take by the holder nor a release by another thread from user
space (and do not wrap the count) is sound; and a step from such a state leaves a sound state
exactly when it is such a step itself. -/
theorem sound_iff_stepOk {w : World} (h : Reach step StepOk init w) :
    Sound w ∧ ∀ a w', step w a = some w' → (Sound w' ↔ StepOk w a) := by
  have hinv := inv_of_reach h
  refine ⟨hinv.sound, fun a w' hs => ?_⟩
  have hact := act_of_step hs
  refine ⟨fun hsound => ?_, fun hok => (inv_act hinv a hok hact).sound⟩
  by_contra hok
  exact not_sound_of_not_stepOk hinv a hok hact hsound

/-- Thread 1 takes the lock twice, recursively; thread 2 blocks on it from user space, and thread 1
transfers it to thread 3. -/
theorem sound_iff_stepOk_transfer : ∃ w, Reach step StepOk init w ∧ w.recursionCount = 2 ∧
    w.owningThreadID = 3 ∧ w.phase 2 = .blocked ∧ Sound w := by
  have hrun := Reach.of_exec step StepOk [.schedulerInit, .takeRecursive 1, .takeRecursive 1,
    .takeExclusive 2 true, .transfer 1 3] init rfl (by decide)
  exact ⟨_, hrun, rfl, rfl, rfl, (sound_iff_stepOk hrun).1⟩

/-- A second take from user space by the holder reaches the panic; a release from user space by
another thread leaves an owned lock with count zero. -/
theorem user_misuse_not_sound :
    (∃ w, Reach step anyStep init w ∧ w.panicked = some newlyAcquired) ∧
    (∃ w, Reach step anyStep init w ∧ w.owningThreadID = 1 ∧ w.recursionCount = 0) ∧
    ¬ ∀ w, Reach step anyStep init w → Sound w := by
  have htwice : ∃ w, Reach step anyStep init w ∧ w.panicked = some newlyAcquired :=
    ⟨_, Reach.of_exec step anyStep
      [.schedulerInit, .takeExclusive 1 true, .takeExclusive 1 true] init rfl
      (guarded_anyStep _ _ _), rfl⟩
  refine ⟨htwice, ?_, fun hall => ?_⟩
  · exact ⟨_, Reach.of_exec step anyStep
      [.schedulerInit, .takeExclusive 1 true, .release 2 true] init rfl
      (guarded_anyStep _ _ _), rfl, rfl⟩
  · obtain ⟨w, hw, hp⟩ := htwice
    exact (hall w hw).2.2 hp

end Btos.Kernel.Lock
