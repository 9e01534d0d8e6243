import Btos.Lib.Transition
import Btos.Lib.Word

/-!
# The lock counts of the threads

Each thread counts the locks that it has (`lockCount`), and the kernel panics if the count is not that of the system
call itself when it goes back to user space.  `kernel/locks.cpp` counts every lock that is taken; the handlers of
`kernel/user_api.cpp` take the locks of user space out of the count again, but the callback for a wait on the handle of
a lock does not.  A step is a call that comes back: one that waits has not changed a count before.

* **`lockCounts_iff`** — the counts are right in a whole run exactly if no lock is taken by a wait on its handle, and
  every lock is given back the way it was taken.
-/

namespace Btos.Kernel.LockCounts

open Lib.Transition Lib.Word List Option

/-- `Lock`, with what is known of it: whether it was taken for user space, and whether it is still there. -/
structure LockData (T : Type) where
  owner : Option T
  recursionCount : ℕ
  forUserspace : Bool
  live : Bool
  deriving DecidableEq

variable {T : Type} [DecidableEq T]

/-! ### The calls

What a call by the thread `t` makes of a lock, and of the count of `t`; `none` if it waits or is an error. -/

def takeExclusive (forUserspace : Bool) (t : T) (d : LockData T) : Option (LockData T × ℤ) :=
  if d.owner = none ∧ d.recursionCount = 0 then
    some ({ d with owner := some t, recursionCount := 1, forUserspace }, 1)
  else none

def takeRecursive (t : T) (d : LockData T) : Option (LockData T × ℤ) :=
  if d.owner = some t then some ({ d with recursionCount := add32 d.recursionCount 1 }, 0)
  else takeExclusive false t d

/-- `TryTakeExclusive`, which has nothing to do if there is an owner. -/
def tryTakeExclusive (forUserspace : Bool) (t : T) (d : LockData T) : Option (LockData T × ℤ) :=
  if d.owner = none then takeExclusive forUserspace t d else some (d, 0)

def tryTakeRecursive (t : T) (d : LockData T) : Option (LockData T × ℤ) :=
  if d.owner = some t then some ({ d with recursionCount := add32 d.recursionCount 1 }, 0)
  else tryTakeExclusive false t d

def release (t : T) (d : LockData T) : Option (LockData T × ℤ) :=
  if d.owner = some t then
    let d := { d with recursionCount := sub32 d.recursionCount 1 }
    if d.recursionCount = 0 then some ({ d with owner := none }, -1) else some (d, 0)
  else none

def destroy (t : T) (d : LockData T) : Option (LockData T × ℤ) :=
  if d.owner = some t then none
  else (takeExclusive false t d).map fun r => ({ r.1 with live := false }, r.2 - 1)

def btLock (t : T) (d : LockData T) : Option (LockData T × ℤ) :=
  (takeExclusive true t d).map fun r => (r.1, r.2 - 1)

def btTryLock (t : T) (d : LockData T) : Option (LockData T × ℤ) :=
  if d.owner = none then (tryTakeExclusive true t d).map fun r => (r.1, r.2 - 1) else tryTakeExclusive true t d

def btUnlock (t : T) (d : LockData T) : Option (LockData T × ℤ) := (release t d).map fun r => (r.1, 1 + r.2)

/-- The operations of a lock, the handlers for user space, and the callback for a wait on the handle of a lock. -/
inductive Call where
  | takeExclusive | takeRecursive | tryTakeExclusive | tryTakeRecursive | release | destroy
  | btLock | btTryLock | btUnlock | waitHandle
  deriving DecidableEq, Repr

def Call.run (t : T) (d : LockData T) : Call → Option (LockData T × ℤ)
  | .takeExclusive => LockCounts.takeExclusive false t d
  | .takeRecursive => LockCounts.takeRecursive t d
  | .tryTakeExclusive => LockCounts.tryTakeExclusive false t d
  | .tryTakeRecursive => LockCounts.tryTakeRecursive t d
  | .release => LockCounts.release t d
  | .destroy => LockCounts.destroy t d
  | .btLock => LockCounts.btLock t d
  | .btTryLock => LockCounts.btTryLock t d
  | .btUnlock => LockCounts.btUnlock t d
  | .waitHandle => LockCounts.takeExclusive true t d

/-! ### Runs -/

/-- The locks, by number, and the counts of the threads. -/
structure State (T : Type) where
  locks : List (LockData T)
  lockCount : T → ℤ

def State.lock (w : State T) (l : ℕ) : Option (LockData T) := w.locks[l]?.filter (·.live)

/-- A lock and, by `k`, the count of `t` are changed. -/
def State.put (w : State T) (l : ℕ) (d : LockData T) (t : T) (k : ℤ) : State T :=
  ⟨w.locks.set l d, fun u => w.lockCount u + if u = t then k else 0⟩

inductive Op (T : Type) where
  | newLock
  | call (c : Call) (t : T) (l : ℕ)
  | transfer (t dest : T) (l : ℕ)

/-- A call that comes back without an error. -/
def step (w : State T) : Op T → Option (State T)
  | .newLock => some { w with locks := w.locks ++ [⟨none, 0, false, true⟩] }
  | .call c t l => (w.lock l).bind fun d => (c.run t d).map fun r => w.put l r.1 t r.2
  | .transfer t dest l => (w.lock l).bind fun d =>
      if d.owner = some t then
        some ((w.put l d t (-1)).put l { d with owner := some dest } dest 1)
      else none

/-- The kernel holds the lock in the thread `t`. -/
def LockData.heldBy (d : LockData T) (t : T) : Bool := d.live && d.owner == some t && !d.forUserspace

/-- **The counts are right**: each is the number of locks that the kernel holds in the thread. -/
def CountsRight (w : State T) : Prop := ∀ t, w.lockCount t = w.locks.countP (·.heldBy t)

/-- **The condition on a call**: a lock is given up or handed on in the kernel if it was taken there, `BT_UNLOCK` gives
up a lock of user space, and no lock is taken by a wait. -/
def OpOk (w : State T) : Op T → Prop
  | .call .release _ l => ∀ d ∈ w.lock l, sub32 d.recursionCount 1 = 0 → d.forUserspace = false
  | .call .btUnlock _ l => ∀ d ∈ w.lock l, sub32 d.recursionCount 1 = 0 ∧ d.forUserspace = true
  | .call .waitHandle _ _ => False
  | .transfer t dest l => ∀ d ∈ w.lock l, d.forUserspace = false ∨ t = dest
  | _ => True

variable {w w' : State T} {l : ℕ} {d d' : LockData T} {t : T} {c : Call}

/-- **One lock and some counts change**: the counts stay right exactly if they follow the lock. -/
theorem countsRight_set {δ : T → ℤ} (h : CountsRight w) (hl : w.lock l = some d) (hlocks : w'.locks = w.locks.set l d')
    (hcount : ∀ u, w'.lockCount u = w.lockCount u + δ u) :
    CountsRight w' ↔ ∀ u, δ u = (if d'.heldBy u then 1 else 0) - if d.heldBy u then 1 else 0 := by
  obtain ⟨hlt, rfl⟩ := List.getElem?_eq_some_iff.1 (filter_eq_some_iff.1 hl).1
  refine forall_congr' fun u => ?_
  rw [hcount, hlocks, countP_set hlt, h u]
  have hpos : w.locks[l].heldBy u = true → 0 < w.locks.countP (·.heldBy u) := fun hheld =>
    countP_pos_iff.2 ⟨_, getElem_mem hlt, hheld⟩
  cases hold : w.locks[l].heldBy u <;> cases hnew : d'.heldBy u <;>
    simp only [hold, forall_const, if_true, Bool.false_eq_true, if_false] at hpos ⊢ <;> omega

/-- What the lock adds to the count of `t`. -/
def LockData.share (d : LockData T) (t : T) : ℤ := if d.heldBy t then 1 else 0

/-- The count of `t` follows the lock. -/
def Follows (t : T) (d : LockData T) (r : LockData T × ℤ) : Prop :=
  ∀ u, (if u = t then r.2 else 0) = r.1.share u - d.share u

theorem follows_of_others (h : ∀ u, u ≠ t → r.1.heldBy u = d.heldBy u) :
    Follows t d r ↔ r.2 = r.1.share t - d.share t := by
  constructor
  · intro hu
    have ht := hu t
    rwa [if_pos rfl] at ht
  · intro ht u
    by_cases hu : u = t
    · rw [if_pos hu, hu, ht]
    · rw [if_neg hu, LockData.share, LockData.share, h u hu, Int.sub_self]

theorem follows_take (hfree : d.owner = none) (hlive : d.live = true) (k : ℤ) :
    Follows t d (⟨some t, 1, user, d.live⟩, k) ↔ k = if user then 0 else 1 := by
  rw [follows_of_others fun u hu => by simp [LockData.heldBy, hfree, Ne.symm hu]]
  cases user <;> simp [LockData.share, LockData.heldBy, hfree, hlive]

theorem follows_same (n : ℕ) (k : ℤ) : Follows t d ({ d with recursionCount := n }, k) ↔ k = 0 := by
  refine (follows_of_others fun u _ => rfl).trans ?_
  show k = d.share t - d.share t ↔ k = 0
  rw [Int.sub_self]

theorem follows_free (howner : d.owner = some t) (hlive : d.live = true) (n : ℕ) (k : ℤ) :
    Follows t d (⟨none, n, d.forUserspace, d.live⟩, k) ↔ k = if d.forUserspace then 0 else -1 := by
  rw [follows_of_others fun u hu => by simp [LockData.heldBy, howner, Ne.symm hu]]
  cases huser : d.forUserspace <;> simp [LockData.share, LockData.heldBy, howner, hlive, huser]

omit [DecidableEq T] in
theorem take_spec (h : takeExclusive user t d = some r) :
    d.owner = none ∧ r = (⟨some t, 1, user, d.live⟩, 1) := by
  unfold takeExclusive at h
  split at h
  · rename_i hfree
    cases h
    exact ⟨hfree.1, rfl⟩
  · cases h

section

variable (hlive : d.live = true)
include hlive

theorem take_follows (h : takeExclusive false t d = some r) : Follows t d r := by
  obtain ⟨hfree, rfl⟩ := take_spec h
  exact (follows_take hfree hlive 1).2 rfl

theorem try_follows (h : tryTakeExclusive false t d = some r) : Follows t d r := by
  unfold tryTakeExclusive at h
  split at h
  · exact take_follows hlive h
  · cases h
    exact (follows_same d.recursionCount 0).2 rfl

theorem btLock_follows (h : btLock t d = some r) : Follows t d r := by
  obtain ⟨q, hq, rfl⟩ := map_eq_some_iff.1 h
  obtain ⟨hfree, rfl⟩ := take_spec hq
  exact (follows_take hfree hlive _).2 rfl

/-- What a release makes of the count, if `k` is added to it. -/
theorem release_follows_iff (h : release t d = some r) (k : ℤ) :
    Follows t d (r.1, k + r.2) ↔
      if sub32 d.recursionCount 1 = 0 then k = (if d.forUserspace then 1 else 0) else k = 0 := by
  obtain ⟨howner, h⟩ := ite_none_right_eq_some.1 h
  dsimp only at h
  split at h
  · rename_i hlast
    cases h
    rw [if_pos hlast, follows_free howner hlive]
    split
    · omega
    · omega
  · rename_i hlast
    cases h
    rw [if_neg hlast, follows_same, Int.add_zero]

end

/-- **The count follows the lock in a call** exactly if the call meets the condition. -/
theorem run_follows_iff (hl : w.lock l = some d) (h : c.run t d = some r) :
    Follows t d r ↔ OpOk w (.call c t l) := by
  have hlive : d.live = true := (filter_eq_some_iff.1 hl).2
  cases c with
  | takeExclusive => exact iff_of_true (take_follows hlive h) trivial
  | takeRecursive =>
    have h' : takeRecursive t d = some r := h
    refine iff_of_true ?_ trivial
    unfold takeRecursive at h'
    split at h'
    · cases h'
      exact (follows_same _ 0).2 rfl
    · exact take_follows hlive h'
  | tryTakeExclusive => exact iff_of_true (try_follows hlive h) trivial
  | tryTakeRecursive =>
    have h' : tryTakeRecursive t d = some r := h
    refine iff_of_true ?_ trivial
    unfold tryTakeRecursive at h'
    split at h'
    · cases h'
      exact (follows_same _ 0).2 rfl
    · exact try_follows hlive h'
  | release =>
    have hiff := release_follows_iff hlive h 0
    rw [Int.zero_add] at hiff
    rw [hiff, OpOk]
    simp only [hl, mem_def, Option.some.injEq, forall_eq']
    cases d.forUserspace <;> simp
  | destroy =>
    have h' : destroy t d = some r := h
    refine iff_of_true ?_ trivial
    unfold destroy at h'
    split at h'
    · cases h'
    · obtain ⟨q, hq, rfl⟩ := map_eq_some_iff.1 h'
      obtain ⟨hfree, rfl⟩ := take_spec hq
      intro u
      simp [LockData.share, LockData.heldBy, hfree]
  | btLock => exact iff_of_true (btLock_follows hlive h) trivial
  | btTryLock =>
    have h' : btTryLock t d = some r := h
    refine iff_of_true ?_ trivial
    unfold btTryLock tryTakeExclusive at h'
    split at h'
    · exact btLock_follows hlive h'
    · cases h'
      exact (follows_same d.recursionCount 0).2 rfl
  | btUnlock =>
    obtain ⟨q, hq, rfl⟩ := map_eq_some_iff.1 h
    rw [release_follows_iff hlive hq 1, OpOk]
    simp only [hl, mem_def, Option.some.injEq, forall_eq']
    cases d.forUserspace <;> simp
  | waitHandle =>
    refine iff_of_false ?_ id
    obtain ⟨hfree, rfl⟩ := take_spec h
    rw [follows_take hfree hlive]
    decide

/-- **One step** keeps the counts right exactly if it meets the condition. -/
theorem step_right_iff (h : CountsRight w) (hs : step w op = some w') : CountsRight w' ↔ OpOk w op := by
  cases op with
  | newLock =>
    cases hs
    refine iff_of_true ?_ trivial
    intro u
    rw [h u]
    simp [LockData.heldBy]
  | call c t l =>
    obtain ⟨d, hd, hs⟩ := bind_eq_some_iff.1 hs
    obtain ⟨r, hr, rfl⟩ := map_eq_some_iff.1 hs
    rw [← run_follows_iff hd hr]
    exact countsRight_set h hd rfl fun u => rfl
  | transfer t dest l =>
    obtain ⟨d, hd, hs⟩ := bind_eq_some_iff.1 hs
    obtain ⟨howner, hs⟩ := ite_none_right_eq_some.1 hs
    cases hs
    rw [countsRight_set h hd (set_set _) fun u => Int.add_assoc .., OpOk]
    simp only [LockData.heldBy, (filter_eq_some_iff.1 hd).2, howner, hd, mem_def, Option.some.injEq, forall_eq']
    constructor
    · intro hu
      by_contra hno
      rw [not_or] at hno
      have ht := hu t
      simp [hno.1, hno.2] at ht
    · intro hok u
      by_cases hut : u = t <;> by_cases hud : u = dest <;> rcases hok with hok | hok <;> simp_all [Ne.symm]

/-- **The lock counts.**  In a run of calls without a locking error, from a system without locks, every count is the
number of locks that the kernel holds in the thread, in every state, exactly if each call meets the condition. -/
theorem lockCounts_iff (ops : List (Op T)) (w : State T) (hrun : exec step ⟨[], fun _ => 0⟩ ops = some w) :
    (∀ k u, exec step ⟨[], fun _ => 0⟩ (ops.take k) = some u → CountsRight u) ↔
      Guarded step OpOk (⟨[], fun _ => 0⟩ : State T) ops := by
  have hstart : CountsRight (⟨[], fun _ => 0⟩ : State T) := fun _ => rfl
  rw [forall_take_iff _ _ hrun, and_iff_right hstart]
  refine guarded_iff CountsRight (fun _ => True) (fun _ _ _ _ _ => trivial) ?_ ?_ ops _ hstart hrun trivial
  · intro s op u h _ hs
    rw [← step_right_iff h hs, hs]
    simp only [Option.some.injEq, forall_eq']
  · intro s op u h hok hs _
    exact (step_right_iff h hs).2 hok

theorem lockCounts_iff_unlock : ∃ w : State ℕ,
    exec step ⟨[], fun _ => 0⟩ [.newLock, .call .btLock 1 0, .call .btUnlock 1 0] = some w ∧ CountsRight w := by
  have hguard : Guarded step OpOk (⟨[], fun _ => 0⟩ : State ℕ)
      [.newLock, .call .btLock 1 0, .call .btUnlock 1 0] := by
    refine ⟨trivial, trivial, ?_, trivial⟩
    intro d hd
    cases hd
    decide
  exact ⟨_, rfl, (lockCounts_iff _ _ rfl).2 hguard 3 _ rfl⟩

/-- A thread waits on the handle of a free lock: it goes back to user space with a lock in its count. -/
theorem waitHandle_counted : ∃ w,
    exec step (⟨[], fun _ => 0⟩ : State ℕ) [.newLock, .call .waitHandle 1 0] = some w ∧
      w.lockCount 1 = 1 ∧ w.locks.countP (·.heldBy 1) = 0 :=
  ⟨_, rfl, by decide, by decide⟩

end Btos.Kernel.LockCounts
