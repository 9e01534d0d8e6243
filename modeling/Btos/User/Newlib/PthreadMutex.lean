import Btos.Kernel.Atoms
import Btos.Lib.Transition

/-!
# Mutexes over kernel atoms

`newlib/libc/sys/btos/pthread_mutex.c` keeps a mutex in two atoms.  The first one has the handle of the thread that
holds the mutex, or 0; the second one counts the locks of a recursive mutex.

Each atom call is one step of the thread that makes it, and any threads may be anywhere in their calls.  Threads are
named by their handles, which are not 0.  The mutex has been made by `pthread_mutex_init`.

* `Pc`, `Thread` — where a thread is, and **what is said about it**: `depth`, its locks that have returned 0 without its
  unlocks, and `dirty`, if its call has changed an atom;
* `ThreadOk`, `Inv` — **the invariant**: the first atom tells who holds the mutex, and the second one the depth of the
  thread that does.
-/

namespace Btos.User.Newlib.PthreadMutex

open Kernel.Atoms Lib.Transition Lib.Word Function

/-! ### The code -/

@[ext]
structure Handle where
  val : ℕ
  pos : 0 < val
  lt : val < 2 ^ 32
  deriving DecidableEq

inductive Taker where
  | lock | trylock
  deriving DecidableEq, Repr

inductive Pc where
  | idle
  /-- Before `bt_read_atom`. -/
  | read (f : Taker)
  /-- Before `bt_modify_atom(mtx->count, bt_atom_modify_Add, 1)`. -/
  | add (f : Taker)
  /-- Before `bt_wait_atom`. -/
  | wait
  /-- Before `bt_cmpxchg_atom`. -/
  | exchange (f : Taker)
  /-- Before `bt_modify_atom(mtx->count, bt_atom_modify_Set, 1)`. -/
  | setCount (f : Taker)
  | taken (f : Taker) (ret : ℕ)
  /-- `pthread_mutex_unlock`, before `bt_read_atom`. -/
  | unlockRead
  /-- Before `bt_modify_atom(mtx->count, bt_atom_modify_Subtract, 1)`. -/
  | subtract
  /-- Before `bt_modify_atom(mtx->atom, bt_atom_modify_Set, 0)`. -/
  | release
  | unlocked (ret : ℕ)
  deriving DecidableEq, Repr

def Pc.outside : Pc → Bool
  | .idle | .taken _ _ | .unlocked _ => true
  | _ => false

structure Thread where
  pc : Pc
  depth : ℕ
  dirty : Bool
  deriving DecidableEq, Repr

/-- `btos_pthread_mutex`; of the type only whether it is `PTHREAD_MUTEX_RECURSIVE` is used. -/
structure Mutex where
  recursive : Bool
  atom : Atom
  count : Atom

structure State where
  mutex : Mutex
  threads : Handle → Thread

/-- `pthread_mutex_init`, before any call. -/
def pthreadMutexInit (recursive : Bool) : State where
  mutex := ⟨recursive, newAtom 0, newAtom 0⟩
  threads := fun _ => ⟨.idle, 0, false⟩

def ePerm : ℕ := 1

def eBusy : ℕ := 16

def eDeadlk : ℕ := 45

def Thread.take (th : Thread) (f : Taker) : Thread := { th with pc := .taken f 0, depth := th.depth + 1 }

/-- `pthread_mutex_unlock` returns 0. -/
def Thread.give (th : Thread) : Thread := { th with pc := .unlocked 0, depth := th.depth - 1 }

/-- The next atom call of the thread `t`, and what the code does up to the one behind it. -/
def atomStep (t : Handle) (m : Mutex) (th : Thread) : Option (Mutex × Thread) :=
  match th.pc with
  | .idle | .taken _ _ | .unlocked _ => none
  | .read f =>
      if m.atom.value = t.val then
        if !m.recursive then some (m, { th with pc := .taken f eDeadlk })
        else some (m, { th with pc := .add f })
      else
        match f with
        | .lock => some (m, { th with pc := .wait })
        | .trylock => some (m, { th with pc := .exchange .trylock })
  | .add f => some ({ m with count := m.count.modify .add 1 }, th.take f)
  | .wait =>
      -- the call returns once the value is 0
      if m.atom.waitBlockCheck .equal 0 then some (m, { th with pc := .exchange .lock }) else none
  | .exchange f =>
      let atom := m.atom.compareExchange 0 t.val
      if atom.value = t.val then
        if m.recursive then some ({ m with atom := atom }, { th with pc := .setCount f })
        else some ({ m with atom := atom }, th.take f)
      else
        match f with
        | .lock => some ({ m with atom := atom }, { th with pc := .wait })
        | .trylock => some ({ m with atom := atom }, { th with pc := .taken .trylock eBusy })
  | .setCount f => some ({ m with count := m.count.modify .set 1 }, th.take f)
  | .unlockRead =>
      if m.atom.value ≠ t.val then some (m, { th with pc := .unlocked ePerm })
      else if m.recursive then some (m, { th with pc := .subtract })
      else some (m, { th with pc := .release })
  | .subtract =>
      let count := m.count.modify .subtract 1
      if count.value > 0 then some ({ m with count := count }, th.give)
      else some ({ m with count := count }, { th with pc := .release })
  | .release => some ({ m with atom := m.atom.modify .set 0 }, th.give)

/-- The atoms have other values than before. -/
def Mutex.changed (m m' : Mutex) : Bool := m'.atom.value ≠ m.atom.value || m'.count.value ≠ m.count.value

inductive Act where
  | lock (t : Handle)
  | trylock (t : Handle)
  | unlock (t : Handle)
  /-- The next atom call of the call `t` is in. -/
  | atomStep (t : Handle)

def State.setThread (s : State) (t : Handle) (m : Mutex) (th : Thread) : State := ⟨m, update s.threads t th⟩

def startCall (s : State) (t : Handle) (pc : Pc) : Option State :=
  if (s.threads t).pc.outside then some (s.setThread t s.mutex ⟨pc, (s.threads t).depth, false⟩) else none

def step (s : State) : Act → Option State
  | .lock t => startCall s t (.read .lock)
  | .trylock t => startCall s t (.read .trylock)
  | .unlock t => startCall s t .unlockRead
  | .atomStep t =>
      (PthreadMutex.atomStep t s.mutex (s.threads t)).map fun r =>
        s.setThread t r.1 { r.2 with dirty := (s.threads t).dirty || s.mutex.changed r.1 }

/-! ### What is to be -/

structure Right (s : State) : Prop where
  exclusive : ∀ t u, 0 < (s.threads t).depth → 0 < (s.threads u).depth → t = u
  kept : ∀ t, 0 < (s.threads t).depth → s.mutex.atom.value = t.val
  failed : ∀ t ret, (s.threads t).pc = .taken .trylock ret → ret ≠ 0 → (s.threads t).dirty = false

/-- Only a thread that holds the mutex unlocks it. -/
def HolderUnlocks (s : State) : Act → Prop
  | .unlock t => 0 < (s.threads t).depth
  | _ => True

/-- And none locks a recursive mutex that it has locked `2 ^ 64` times. -/
def StepOk (s : State) : Act → Prop
  | .lock t => s.mutex.recursive = true → (s.threads t).depth < 2 ^ 64
  | .trylock t => s.mutex.recursive = true → (s.threads t).depth < 2 ^ 64
  | .unlock t => 0 < (s.threads t).depth
  | .atomStep _ => True

instance decidableStepOk (s : State) : (a : Act) → Decidable (StepOk s a)
  | .lock t | .trylock t => inferInstanceAs (Decidable (s.mutex.recursive = true → (s.threads t).depth < 2 ^ 64))
  | .unlock t => inferInstanceAs (Decidable (0 < (s.threads t).depth))
  | .atomStep _ => .isTrue trivial

/-! ### The invariant -/

/-- The thread has the mutex, though its call may not have returned yet. -/
def Thread.owns (th : Thread) : Prop := 0 < th.depth ∨ ∃ f, th.pc = .setCount f

/-- The locks that are counted: the last unlock is, before it releases the mutex. -/
def Thread.counted (th : Thread) : ℕ := if th.pc = .release then th.depth - 1 else th.depth

def PlaceOk (recursive : Bool) (th : Thread) : Prop :=
  match th.pc with
  | .idle | .unlocked _ => True
  | .read _ => (recursive = true → th.depth < 2 ^ 64) ∧ th.dirty = false
  | .add _ => recursive = true ∧ 0 < th.depth ∧ th.depth < 2 ^ 64
  | .wait | .exchange _ => th.depth = 0 ∧ th.dirty = false
  | .setCount _ => recursive = true ∧ th.depth = 0
  | .taken _ ret => ret ≠ 0 → th.dirty = false
  | .unlockRead => 0 < th.depth
  | .subtract => recursive = true ∧ 0 < th.depth
  | .release => th.depth = 1

structure ThreadOk (m : Mutex) (t : Handle) (th : Thread) : Prop where
  owner : m.atom.value = t.val ↔ th.owns
  count : m.recursive = true → 0 < th.depth → m.count.value = th.counted % 2 ^ 64
  bound : m.recursive = true → th.depth ≤ 2 ^ 64
  single : m.recursive = false → th.depth ≤ 1
  place : PlaceOk m.recursive th

def Inv (s : State) : Prop := ∀ t, ThreadOk s.mutex t (s.threads t)

/-- A step of `t` does not touch the mutex, or finds and leaves it free or with `t`. -/
structure StepOf (t : Handle) (m m' : Mutex) : Prop where
  recursive : m'.recursive = m.recursive
  mine : m' = m ∨ (m.atom.value = t.val ∨ m.atom.value = 0) ∧ (m'.atom.value = t.val ∨ m'.atom.value = 0)

theorem StepOf.refl (t : Handle) (m : Mutex) : StepOf t m m := ⟨rfl, .inl rfl⟩

theorem ne_of_mine {t u : Handle} (hne : u ≠ t) {value : ℕ} (h : value = t.val ∨ value = 0) : value ≠ u.val := by
  rintro rfl
  have hpos := u.pos
  rcases h with h | h
  · exact hne (Handle.ext h)
  · omega

/-- **Frame.**  A step of `t` changes nothing for the other threads. -/
theorem ThreadOk.frame (h : ThreadOk m u th) (hne : u ≠ t) (hstep : StepOf t m m') : ThreadOk m' u th := by
  rcases hstep.mine with rfl | ⟨hbefore, hafter⟩
  · exact h
  · have hown : ¬ th.owns := fun ho => ne_of_mine hne hbefore (h.owner.mpr ho)
    refine ⟨iff_of_false (ne_of_mine hne hafter) hown, fun _ hpos => absurd (.inl hpos) hown, ?_, ?_, ?_⟩
    · rw [hstep.recursive]
      exact h.bound
    · rw [hstep.recursive]
      exact h.single
    · rw [hstep.recursive]
      exact h.place

/-! ### The steps -/

/-- The thread behind its atom call, with the mark that says if the call has changed an atom. -/
def Thread.mark (th : Thread) (m m' : Mutex) (dirty : Bool) : Thread := { th with dirty := dirty || m.changed m' }

theorem changed_self (m : Mutex) : m.changed m = false := by
  simp [Mutex.changed]

theorem add64_mod (d : ℕ) : add64 (d % 2 ^ 64) 1 = (d + 1) % 2 ^ 64 := by
  rw [add64]
  omega

theorem sub64_mod (h : 0 < d) : sub64 (d % 2 ^ 64) 1 = (d - 1) % 2 ^ 64 := by
  rw [sub64]
  omega

section Steps

variable {t : Handle} {m : Mutex} {d : ℕ} {b : Bool} {r : Mutex × Thread}

/-- What is to be shown for an atom call of `t`. -/
structure Goes (t : Handle) (m : Mutex) (b : Bool) (r : Mutex × Thread) : Prop where
  step : StepOf t m r.1
  ok : ThreadOk r.1 t (r.2.mark m r.1 b)

theorem ThreadOk.goto (h : ThreadOk m t th) (hset : (∀ f, th.pc ≠ .setCount f) ∧ ∀ f, pc' ≠ .setCount f)
    (hrelease : th.pc ≠ .release ∧ (m.recursive = true → pc' ≠ .release))
    (hplace : PlaceOk m.recursive ⟨pc', th.depth, b⟩) : ThreadOk m t ⟨pc', th.depth, b⟩ := by
  have howner := h.owner
  have hcount := h.count
  simp only [Thread.owns, hset.1, exists_false, or_false, Thread.counted, hrelease.1, if_false] at howner hcount
  refine ⟨?_, fun hrec hpos => ?_, h.bound, h.single, hplace⟩
  · simpa only [Thread.owns, hset.2, exists_false, or_false] using howner
  · rw [Thread.counted, if_neg (hrelease.2 hrec)]
    exact hcount hrec hpos

theorem ThreadOk.move (h : ThreadOk m t ⟨pc, d, b⟩) (hset : (∀ f, pc ≠ .setCount f) ∧ ∀ f, pc' ≠ .setCount f)
    (hrelease : pc ≠ .release ∧ (m.recursive = true → pc' ≠ .release))
    (hplace : PlaceOk m.recursive ⟨pc', d, b⟩) : Goes t m b (m, ⟨pc', d, b⟩) := by
  refine ⟨.refl t m, ?_⟩
  show ThreadOk m t (Thread.mark ⟨pc', d, b⟩ m m b)
  rw [Thread.mark, changed_self, Bool.or_false]
  exact h.goto hset hrelease hplace

theorem read_ok (h : ThreadOk m t ⟨.read f, d, b⟩) (hs : atomStep t m ⟨.read f, d, b⟩ = some r) : Goes t m b r := by
  obtain ⟨hbound, hclean⟩ : (m.recursive = true → d < 2 ^ 64) ∧ b = false := h.place
  have howner := h.owner
  simp only [Thread.owns, reduceCtorEq, exists_false, or_false] at howner
  simp only [atomStep] at hs
  by_cases hmine : m.atom.value = t.val
  · rw [if_pos hmine] at hs
    have hdepth : 0 < d := howner.mp hmine
    cases hrec : m.recursive with
    | false =>
      simp only [hrec, Bool.not_false, if_true] at hs
      cases hs
      exact h.move (by simp) (by simp) fun _ => hclean
    | true =>
      simp only [hrec, Bool.not_true, Bool.false_eq_true, if_false] at hs
      cases hs
      exact h.move (by simp) (by simp) ⟨hrec, hdepth, hbound hrec⟩
  · rw [if_neg hmine] at hs
    have hdepth : d = 0 := by
      by_contra hne
      exact hmine (howner.mpr (Nat.pos_of_ne_zero hne))
    cases f with
    | lock | trylock =>
      cases hs
      exact h.move (by simp) (by simp) ⟨hdepth, hclean⟩

/-- **A call that changes the count** of a recursive mutex that `t` has, and keeps it. -/
theorem goes_counted {count : Atom} {th : Thread} (hrec : m.recursive = true) (hmine : m.atom.value = t.val)
    (hpos : 0 < th.depth) (hcount : count.value = th.counted % 2 ^ 64) (hle : th.depth ≤ 2 ^ 64)
    (hplace : ∀ b, PlaceOk true { th with dirty := b }) : Goes t m b ({ m with count := count }, th) := by
  refine ⟨⟨rfl, .inr ⟨.inl hmine, .inl hmine⟩⟩, ⟨iff_of_true hmine (.inl hpos), fun _ _ => hcount, fun _ => hle,
    fun hno => Bool.noConfusion (hno.symm.trans hrec), ?_⟩⟩
  show PlaceOk m.recursive _
  rw [hrec]
  exact hplace _

/-- **Another lock of a recursive mutex.** -/
theorem add_ok (h : ThreadOk m t ⟨.add f, d, b⟩) (hs : atomStep t m ⟨.add f, d, b⟩ = some r) : Goes t m b r := by
  obtain ⟨hrec, hpos, hlt⟩ : m.recursive = true ∧ 0 < d ∧ d < 2 ^ 64 := h.place
  cases hs
  refine goes_counted hrec (h.owner.mpr (.inl hpos)) (Nat.succ_pos d) ?_ hlt fun _ hret => absurd rfl hret
  have hcount : m.count.value = d % 2 ^ 64 := h.count hrec hpos
  show (m.count.modify .add 1).value = (d + 1) % 2 ^ 64
  rw [modify_add_value, hcount, add64_mod]

/-- **The exchange**: it takes a mutex that is free, and leaves one that is not. -/
theorem exchange_ok (h : ThreadOk m t ⟨.exchange f, d, b⟩)
    (hs : atomStep t m ⟨.exchange f, d, b⟩ = some r) : Goes t m b r := by
  obtain ⟨rfl, hclean⟩ : d = 0 ∧ b = false := h.place
  have hother : m.atom.value ≠ t.val := by
    intro hmine
    simpa [Thread.owns] using h.owner.mp hmine
  have hlt : t.val < 2 ^ 64 := Nat.lt_trans t.lt (by decide)
  simp only [atomStep] at hs
  by_cases hfree : m.atom.value = 0
  · have hval := compareExchange_hit hfree hlt
    simp only [hval, if_true] at hs
    cases hrec : m.recursive with
    | false =>
      simp only [hrec, Bool.false_eq_true, if_false] at hs
      cases hs
      refine ⟨⟨hrec.symm, .inr ⟨.inr hfree, .inl hval⟩⟩, ⟨iff_of_true hval (.inl Nat.one_pos),
        (by simp), fun _ => ?_, fun _ => Nat.le_refl 1, fun hret => absurd rfl hret⟩⟩
      show 1 ≤ 2 ^ 64
      decide
    | true =>
      simp only [hrec, if_true] at hs
      cases hs
      refine ⟨⟨hrec.symm, .inr ⟨.inr hfree, .inl hval⟩⟩, ⟨iff_of_true hval (.inr ⟨f, rfl⟩), fun _ hpos => ?_,
        fun _ => ?_, fun _ => Nat.zero_le 1, ⟨rfl, rfl⟩⟩⟩
      · exact absurd hpos (Nat.lt_irrefl 0)
      · exact Nat.zero_le _
  · rw [compareExchange_miss hfree, if_neg hother] at hs
    cases f with
    | lock =>
      cases hs
      exact h.move (by simp) (by simp) ⟨rfl, hclean⟩
    | trylock =>
      cases hs
      exact h.move (by simp) (by simp) fun _ => hclean

theorem setCount_ok (h : ThreadOk m t ⟨.setCount f, d, b⟩)
    (hs : atomStep t m ⟨.setCount f, d, b⟩ = some r) : Goes t m b r := by
  obtain ⟨hrec, rfl⟩ : m.recursive = true ∧ d = 0 := h.place
  cases hs
  refine goes_counted hrec (h.owner.mpr (.inr ⟨f, rfl⟩)) Nat.one_pos rfl ?_ fun _ hret => absurd rfl hret
  show 1 ≤ 2 ^ 64
  decide

/-- `pthread_mutex_unlock` by the thread that holds the mutex. -/
theorem unlockRead_ok (h : ThreadOk m t ⟨.unlockRead, d, b⟩) (hs : atomStep t m ⟨.unlockRead, d, b⟩ = some r) : Goes t m b r := by
  have hpos : 0 < d := h.place
  have hmine : m.atom.value = t.val := h.owner.mpr (.inl hpos)
  simp only [atomStep, hmine, ne_eq, not_true_eq_false, if_false] at hs
  cases hrec : m.recursive with
  | false =>
    simp only [hrec, Bool.false_eq_true, if_false] at hs
    cases hs
    have hone : d ≤ 1 := h.single hrec
    have hdepth : d = 1 := by omega
    exact h.move (by simp) (by simp [hrec]) hdepth
  | true =>
    simp only [hrec, if_true] at hs
    cases hs
    exact h.move (by simp) (by simp) ⟨hrec, hpos⟩

/-- **One lock less**: the mutex is released only if it was the last one. -/
theorem subtract_ok (h : ThreadOk m t ⟨.subtract, d, b⟩) (hs : atomStep t m ⟨.subtract, d, b⟩ = some r) : Goes t m b r := by
  obtain ⟨hrec, hpos⟩ : m.recursive = true ∧ 0 < d := h.place
  have hmine : m.atom.value = t.val := h.owner.mpr (.inl hpos)
  have hbound : d ≤ 2 ^ 64 := h.bound hrec
  have hcount : m.count.value = d % 2 ^ 64 := h.count hrec hpos
  have hval : (m.count.modify .subtract 1).value = (d - 1) % 2 ^ 64 := by
    rw [modify_subtract_value, hcount, sub64_mod hpos]
  simp only [atomStep] at hs
  by_cases hleft : 0 < (m.count.modify .subtract 1).value
  · rw [if_pos hleft] at hs
    cases hs
    rw [hval] at hleft
    have hdepth : 0 < d - 1 := by
      by_contra hzero
      rw [Nat.eq_zero_of_not_pos hzero] at hleft
      exact absurd hleft (by decide)
    exact goes_counted hrec hmine hdepth hval (Nat.le_trans (Nat.sub_le d 1) hbound) fun _ => trivial
  · rw [if_neg hleft] at hs
    cases hs
    have hone : d = 1 := by omega
    exact goes_counted hrec hmine hpos hval hbound fun _ => hone

/-- **The release.** -/
theorem release_ok (h : ThreadOk m t ⟨.release, d, b⟩) (hs : atomStep t m ⟨.release, d, b⟩ = some r) : Goes t m b r := by
  obtain rfl : d = 1 := h.place
  cases hs
  have hmine : m.atom.value = t.val := h.owner.mpr (.inl Nat.one_pos)
  have hother : 0 ≠ t.val := Nat.ne_of_lt t.pos
  refine ⟨⟨rfl, .inr ⟨.inl hmine, .inr rfl⟩⟩, ⟨iff_of_false hother ?_, fun _ hpos => ?_, fun _ => ?_, fun _ => ?_,
    trivial⟩⟩
  · simp [Thread.owns, Thread.mark, Thread.give]
  · exact absurd hpos (Nat.lt_irrefl 0)
  · exact Nat.zero_le _
  · exact Nat.zero_le _

/-- **Every atom call** keeps what is known about its thread, and is none of the other threads' business. -/
theorem atomStep_ok (h : ThreadOk m t th) (hs : atomStep t m th = some r) : Goes t m th.dirty r := by
  obtain ⟨pc, d, b⟩ := th
  cases pc with
  | idle | taken f ret | unlocked ret => cases hs
  | read f => exact read_ok h hs
  | add f => exact add_ok h hs
  | wait =>
    simp only [atomStep] at hs
    split at hs
    · cases hs
      exact h.move (by simp) (by simp) h.place
    · cases hs
  | exchange f => exact exchange_ok h hs
  | setCount f => exact setCount_ok h hs
  | unlockRead => exact unlockRead_ok h hs
  | subtract => exact subtract_ok h hs
  | release => exact release_ok h hs

end Steps

theorem Inv.setThread (h : Inv s) (hstep : StepOf t s.mutex m)
    (hok : ThreadOk m t th) : Inv (s.setThread t m th) := by
  intro u
  show ThreadOk m u (update s.threads t th u)
  by_cases hu : u = t
  · subst hu
    rw [update_self]
    exact hok
  · rw [update_of_ne hu]
    exact (h u).frame hu hstep

theorem Inv.startCall (h : Inv s) (hs : startCall s t pc = some s')
    (hpc : (∀ f, pc ≠ .setCount f) ∧ pc ≠ .release)
    (hplace : PlaceOk s.mutex.recursive ⟨pc, (s.threads t).depth, false⟩) : Inv s' := by
  obtain ⟨houtside, hs⟩ := Option.ite_none_right_eq_some.1 hs
  cases hs
  refine h.setThread (.refl t _) ?_
  have hok := h t
  refine hok.goto ⟨fun f hf => ?_, hpc.1⟩ ⟨fun hf => ?_, fun _ => hpc.2⟩ hplace
  · rw [hf] at houtside
    exact Bool.noConfusion houtside
  · rw [hf] at houtside
    exact Bool.noConfusion houtside

/-- **Step.** -/
theorem inv_step (h : Inv s) (a : Act) (hok : StepOk s a) (hs : step s a = some s') : Inv s' := by
  cases a with
  | lock t | trylock t => exact h.startCall hs (by simp) ⟨hok, rfl⟩
  | unlock t => exact h.startCall hs (by simp) hok
  | atomStep t =>
    obtain ⟨r, hr, rfl⟩ := Option.map_eq_some_iff.mp hs
    obtain ⟨hstep, hthread⟩ := atomStep_ok (h t) hr
    exact h.setThread hstep hthread

theorem inv_init (recursive : Bool) : Inv (pthreadMutexInit recursive) := by
  intro t
  have hother : 0 ≠ t.val := Nat.ne_of_lt t.pos
  refine ⟨iff_of_false hother ?_, fun _ hpos => absurd hpos (Nat.lt_irrefl 0), fun _ => Nat.zero_le _,
    fun _ => Nat.zero_le _, trivial⟩
  simp [Thread.owns, pthreadMutexInit]

theorem Inv.right (h : Inv s) : Right s where
  exclusive t u ht hu := Handle.ext (((h t).owner.mpr (.inl ht)).symm.trans ((h u).owner.mpr (.inl hu)))
  kept t ht := (h t).owner.mpr (.inl ht)
  failed t ret hpc hret := by
    have hplace := (h t).place
    rw [PlaceOk, hpc] at hplace
    exact hplace hret

/-- **Every run is right** in which only the thread that holds the mutex unlocks it, and none locks a recursive mutex
that it has locked `2 ^ 64` times. -/
theorem mutex_right {recursive : Bool} {s : State} (h : Reach step StepOk (pthreadMutexInit recursive) s) : Right s :=
  (h.invariant Inv (inv_init recursive) fun _ a _ hinv hok hs => inv_step hinv a hok hs).right

def one : Handle := ⟨1, by decide, by decide⟩

theorem two_lt : 2 < 2 ^ 32 := by decide

def two : Handle := ⟨2, Nat.two_pos, two_lt⟩

/-- A recursive mutex that is locked twice is not given to another thread. -/
theorem mutex_right_nested : ∃ s, Reach step StepOk (pthreadMutexInit true) s ∧ Right s ∧
    (s.threads one).depth = 2 ∧ (s.threads two).pc = .taken .trylock eBusy := by
  obtain ⟨s, hreach, hs⟩ := Reach.of_exec_check step StepOk
    [.lock one, .atomStep one, .atomStep one, .atomStep one, .atomStep one, .trylock two, .atomStep two,
      .lock one, .atomStep one, .atomStep two, .atomStep one] (pthreadMutexInit true)
    (fun s => decide ((s.threads one).depth = 2 ∧ (s.threads two).pc = .taken .trylock eBusy))
    (by decide) (by decide)
  exact ⟨s, hreach, mutex_right hreach, of_decide_eq_true hs⟩

/-! ### Too many locks -/

section Nested

variable {s : State} {t : Handle} {m m' : Mutex} {th th' : Thread} {pc : Pc}

theorem reach_startCall (h : Reach step HolderUnlocks s₀ (s.setThread t m th))
    (hok : HolderUnlocks (s.setThread t m th) a) (ha : ∀ s, step s a = startCall s t pc)
    (houtside : th.pc.outside = true) :
    Reach step HolderUnlocks s₀ (s.setThread t m ⟨pc, th.depth, false⟩) := by
  refine h.next a hok ?_
  simp only [ha, startCall, State.setThread, update_self, houtside, if_true, update_idem]

theorem reach_atomStep (h : Reach step HolderUnlocks s₀ (s.setThread t m th)) (hs : atomStep t m th = some (m', th')) :
    Reach step HolderUnlocks s₀ (s.setThread t m' (th'.mark m m' th.dirty)) := by
  refine h.next (.atomStep t) trivial ?_
  simp only [step, State.setThread, update_self, hs, Option.map_some, update_idem]
  rfl

/-- The thread has locked the mutex `n` times. -/
def Nested (n : ℕ) : Prop := ∃ dirty, Reach step HolderUnlocks (pthreadMutexInit true)
  ((pthreadMutexInit true).setThread one ⟨true, newAtom 1, newAtom n⟩ ⟨.taken .lock 0, n, dirty⟩)

theorem nested_one : Nested 1 := by
  have hstart : Reach step HolderUnlocks (pthreadMutexInit true)
      ((pthreadMutexInit true).setThread one (pthreadMutexInit true).mutex ⟨.idle, 0, false⟩) := by
    have hself : update (pthreadMutexInit true).threads one ⟨.idle, 0, false⟩ = (pthreadMutexInit true).threads :=
      update_eq_self one _
    rw [State.setThread, hself]
    exact .start
  have hlock := reach_startCall (a := .lock one) hstart trivial (fun _ => rfl) rfl
  have hread := reach_atomStep hlock rfl
  have hwait := reach_atomStep hread rfl
  have hexchange := reach_atomStep hwait rfl
  exact ⟨_, reach_atomStep hexchange rfl⟩

theorem Nested.succ (h : Nested n) : Nested (n + 1) := by
  obtain ⟨dirty, h⟩ := h
  have hlock := reach_startCall (a := .lock one) h trivial (fun _ => rfl) rfl
  have hread := reach_atomStep hlock (show _ = some (_, ⟨.add .lock, n, false⟩) from rfl)
  have hadd := reach_atomStep hread rfl
  have hcount : (newAtom n).modify .add 1 = newAtom (n + 1) := by simp [Atom.modify, newAtom, add64]
  rw [hcount] at hadd
  exact ⟨_, hadd⟩

theorem nested (n : ℕ) : Nested (n + 1) := by
  induction n with
  | zero => exact nested_one
  | succ n ih => exact ih.succ

end Nested

/-- **A mutex that has been locked once more than `2 ^ 64` times** is free after one unlock. -/
theorem mutex_released_early : ∃ s, Reach step HolderUnlocks (pthreadMutexInit true) s ∧
    (s.threads one).depth = 2 ^ 64 ∧ s.mutex.atom.value = 0 ∧ ¬ Right s := by
  obtain ⟨dirty, h⟩ := nested (2 ^ 64)
  have hunlock := reach_startCall (a := .unlock one) h (show 0 < 2 ^ 64 + 1 by decide) (fun _ => rfl) rfl
  have hread := reach_atomStep hunlock rfl
  have hsubtract := reach_atomStep hread rfl
  refine ⟨_, reach_atomStep hsubtract rfl, rfl, rfl, fun hright => ?_⟩
  have hkept : 0 = one.val := hright.kept one (show 0 < 2 ^ 64 by decide)
  exact absurd hkept (by decide)

end Btos.User.Newlib.PthreadMutex
