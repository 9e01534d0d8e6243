import Mathlib.Data.List.Basic
import Mathlib.Tactic.Common

/-!
# Thread-specific values

The key functions of `newlib/libc/sys/btos/pthread.c`.  Every thread started with `pthread_create` has a record with a
table of keys and values.  Each call holds the lock from its beginning to its end, so a run is a sequence of calls.

* `pthreadKeyCreate`, `pthreadSetspecific`, `pthreadGetspecific`, `pthreadCreate` — **the calls**.
  `pthread_key_create` gives the new key as its return value and stores nothing through `key`; `pthread_setspecific`
  does not count the entry it adds, so no call ever finds one;
* `run_spec`, `keys_work_iff` — **no run uses a table outside of its memory**, and one works exactly if no key is made
  and no value is asked for that has been set.
-/

namespace Btos.User.Newlib.Pthread

open List Option

/-! ### The calls -/

/-- `pthread_key_t`. -/
abbrev Key := BitVec 32

/-- `btos_pthread_specific`. -/
structure Specific where
  key : Key
  value : ℕ
  deriving DecidableEq, Repr

/-- `btos_pthread_data`: what the functions for keys use.  The table has an entry for each one the allocated memory has
room for, `none` where nothing has been written. -/
structure PthreadData where
  handle : ℕ
  specificCount : ℕ
  specifics : List (Option Specific)
  deriving DecidableEq, Repr

structure PthreadState where
  counter : Key
  threads : List PthreadData
  deriving DecidableEq, Repr

def PthreadState.initial : PthreadState := ⟨0, []⟩

/-- The loop over the entries from `i` on, with the number of those that are left: where the key is. -/
def searchFrom (specifics : List (Option Specific)) (key : Key) : ℕ → ℕ → Option (Option ℕ)
  | 0, _ => some none
  | n + 1, i =>
      match specifics[i]? with
      | some (some s) => if s.key = key then some (some i) else searchFrom specifics key n (i + 1)
      | _ => none

def PthreadData.search (data : PthreadData) (key : Key) : Option (Option ℕ) :=
  searchFrom data.specifics key data.specificCount 0

/-- The table `pthread_setspecific` allocates for one more entry: `realloc` is given the size of `specific_count` entries
and one byte. -/
def PthreadData.allocate (data : PthreadData) : List (Option Specific) :=
  if data.specificCount = 0 then [none]
  else (data.specifics ++ List.replicate data.specificCount none).take data.specificCount

/-- `pthread_setspecific` on the record of the thread. -/
def PthreadData.putSpecific (data : PthreadData) (key : Key) (value : ℕ) : Option PthreadData :=
  match data.search key with
  | none => none
  | some (some i) => some { data with specifics := data.specifics.set i (some ⟨key, value⟩) }
  | some none =>
      if data.specificCount < data.allocate.length then
        some { data with specifics := data.allocate.set data.specificCount (some ⟨key, value⟩) }
      else none

/-- `pthread_getspecific` on the record of the thread. -/
def PthreadData.readSpecific (data : PthreadData) (key : Key) : Option ℕ :=
  match data.search key with
  | none => none
  | some none => some 0
  | some (some i) =>
      match data.specifics[i]? with
      | some (some s) => some s.value
      | _ => none

/-- `get_thread_data`: where the record is. -/
def getThreadData (s : PthreadState) (handle : ℕ) : Option ℕ :=
  s.threads.findIdx? fun data => data.handle = handle

def einval : ℕ := 22

inductive Result where
  /-- The return value, and what has been stored through `key`. -/
  | keyCreate (ret : BitVec 32) (stored : Option Key)
  | setspecific (ret : ℕ)
  | getspecific (value : ℕ)
  | create (ret : ℕ)
  deriving DecidableEq, Repr

def pthreadKeyCreate (s : PthreadState) : PthreadState × Result :=
  let ret := s.counter + 1
  ({ s with counter := ret }, .keyCreate ret none)

/-- `pthread_setspecific` in the thread `t`. -/
def pthreadSetspecific (s : PthreadState) (t : ℕ) (key : Key) (value : ℕ) : Option (PthreadState × Result) :=
  match getThreadData s t with
  | none => some (s, .setspecific einval)
  | some i =>
      match (s.threads[i]?).bind fun data => data.putSpecific key value with
      | none => none
      | some data => some ({ s with threads := s.threads.set i data }, .setspecific 0)

/-- `pthread_getspecific` in the thread `t`. -/
def pthreadGetspecific (s : PthreadState) (t : ℕ) (key : Key) : Option (PthreadState × Result) :=
  match getThreadData s t with
  | none => some (s, .getspecific 0)
  | some i =>
      match (s.threads[i]?).bind fun data => data.readSpecific key with
      | none => none
      | some value => some (s, .getspecific value)

/-- `pthread_create`, with the handle of the new thread or 0. -/
def pthreadCreate (s : PthreadState) (handle : ℕ) : PthreadState × Result :=
  ({ s with threads := s.threads ++ [⟨handle, 0, []⟩] }, .create (if handle = 0 then 1 else 0))

inductive Call where
  | keyCreate
  | setspecific (key : Key) (value : ℕ)
  | getspecific (key : Key)
  | create (handle : ℕ)
  deriving DecidableEq, Repr

/-- A call of the thread `t`. -/
def step (s : PthreadState) (t : ℕ) : Call → Option (PthreadState × Result)
  | .keyCreate => some (pthreadKeyCreate s)
  | .setspecific key value => pthreadSetspecific s t key value
  | .getspecific key => pthreadGetspecific s t key
  | .create handle => some (pthreadCreate s handle)

structure Entry where
  thread : ℕ
  call : Call
  result : Result
  deriving DecidableEq, Repr

def run : List (ℕ × Call) → Option (PthreadState × List Entry)
  | [] => some (.initial, [])
  | c :: earlier =>
      match run earlier with
      | none => none
      | some (s, log) => (step s c.1 c.2).map fun r => (r.1, ⟨c.1, c.2, r.2⟩ :: log)

/-! ### What the results are to be -/

/-- The value a call has set for a key of a thread. -/
def Entry.setFor (t : ℕ) (k : Key) (e : Entry) : Option ℕ :=
  match e.call, e.result with
  | .setspecific key value, .setspecific ret => if e.thread = t ∧ key = k ∧ ret = 0 then some value else none
  | _, _ => none

/-- The value of the last call that has set one, or the null pointer. -/
def lastSet (log : List Entry) (t : ℕ) (k : Key) : ℕ := (log.findSome? (Entry.setFor t k)).getD 0

def Entry.storedKey (e : Entry) : Option Key :=
  match e.result with
  | .keyCreate _ stored => stored
  | _ => none

def Right (earlier : List Entry) (e : Entry) : Prop :=
  match e.call, e.result with
  | .keyCreate, .keyCreate ret stored => ret = 0 ∧ ∃ k, stored = some k ∧ ∀ e' ∈ earlier, e'.storedKey ≠ some k
  | .getspecific key, .getspecific value => value = lastSet earlier e.thread key
  | .keyCreate, _ => False
  | .getspecific _, _ => False
  | _, _ => True

def Works : List Entry → Prop
  | [] => True
  | e :: earlier => Right earlier e ∧ Works earlier

/-- The run is never outside of a table, and its results are right. -/
def KeysWork (calls : List (ℕ × Call)) : Prop := ∃ s log, run calls = some (s, log) ∧ Works log

/-! ### Calls that do not show the difference -/

def Started (calls : List (ℕ × Call)) (t : ℕ) : Prop := ∃ c ∈ calls, c.2 = .create t

instance (calls : List (ℕ × Call)) (t : ℕ) : Decidable (Started calls t) :=
  inferInstanceAs (Decidable (∃ c ∈ calls, c.2 = .create t))

/-- The value of the last call of `pthread_setspecific` by a thread that has been started before. -/
def lastValue (t : ℕ) (k : Key) : List (ℕ × Call) → ℕ
  | [] => 0
  | c :: earlier =>
      match c.2 with
      | .setspecific key value =>
          if c.1 = t ∧ key = k ∧ Started earlier t then value else lastValue t k earlier
      | _ => lastValue t k earlier

/-- A call that neither makes a key nor asks for a value that is there. -/
def Harmless (earlier : List (ℕ × Call)) (c : ℕ × Call) : Prop :=
  match c.2 with
  | .keyCreate => False
  | .getspecific key => lastValue c.1 key earlier = 0
  | _ => True

def AllHarmless : List (ℕ × Call) → Prop
  | [] => True
  | c :: earlier => Harmless earlier c ∧ AllHarmless earlier

/-! ### Tables stay empty -/

section

variable {data : PthreadData} (hempty : data.specificCount = 0)
include hempty

theorem search_of_empty (key : Key) : data.search key = some none := by
  rw [PthreadData.search, hempty]
  rfl

theorem putSpecific_of_empty (key : Key) (value : ℕ) :
    data.putSpecific key value = some { data with specifics := [some ⟨key, value⟩] } := by
  have hroom : data.allocate = [none] := if_pos hempty
  simp only [PthreadData.putSpecific, search_of_empty hempty, hroom, hempty]
  rfl

theorem readSpecific_of_empty (key : Key) : data.readSpecific key = some 0 := by
  simp only [PthreadData.readSpecific, search_of_empty hempty]

end

def PthreadState.Empty (s : PthreadState) : Prop := ∀ data ∈ s.threads, data.specificCount = 0

def PthreadState.handles (s : PthreadState) : List ℕ := s.threads.map PthreadData.handle

theorem getThreadData_eq_none (h : getThreadData s t = none) : t ∉ s.handles := by
  rw [getThreadData, findIdx?_eq_none_iff] at h
  intro hmem
  obtain ⟨data, hdata, rfl⟩ := mem_map.mp hmem
  simpa using h data hdata

theorem getThreadData_eq_some (h : getThreadData s t = some i) :
    ∃ data, s.threads[i]? = some data ∧ data ∈ s.threads ∧ t ∈ s.handles := by
  obtain ⟨hi, hhandle, -⟩ := findIdx?_eq_some_iff_getElem.mp h
  refine ⟨s.threads[i], getElem?_eq_getElem hi, getElem_mem hi, ?_⟩
  exact mem_map.mpr ⟨_, getElem_mem hi, of_decide_eq_true hhandle⟩

/-- **`pthread_getspecific` finds nothing.** -/
theorem pthreadGetspecific_eq (hs : s.Empty) (t : ℕ) (key : Key) :
    pthreadGetspecific s t key = some (s, .getspecific 0) := by
  rw [pthreadGetspecific]
  cases hget : getThreadData s t with
  | none => rfl
  | some i =>
    obtain ⟨data, hdata, hmem, -⟩ := getThreadData_eq_some hget
    simp only [hdata, bind_some, readSpecific_of_empty (hs data hmem)]

/-- **`pthread_setspecific` writes inside of the table it has allocated**, and counts no entry. -/
theorem pthreadSetspecific_spec (hs : s.Empty) (t : ℕ) (key : Key) (value : ℕ) :
    ∃ s', pthreadSetspecific s t key value = some (s', .setspecific (if t ∈ s.handles then 0 else einval)) ∧
      s'.Empty ∧ s'.handles = s.handles := by
  rw [pthreadSetspecific]
  cases hget : getThreadData s t with
  | none => exact ⟨s, by rw [if_neg (getThreadData_eq_none hget)], hs, rfl⟩
  | some i =>
    obtain ⟨data, hdata, hmem, ht⟩ := getThreadData_eq_some hget
    simp only [hdata, bind_some, putSpecific_of_empty (hs data hmem), if_pos ht]
    refine ⟨_, rfl, fun data' hdata' => ?_, ?_⟩
    · rcases mem_or_eq_of_mem_set hdata' with h | h
      · exact hs data' h
      · rw [h]
        exact hs data hmem
    · obtain ⟨hi, rfl⟩ := List.getElem?_eq_some_iff.mp hdata
      rw [PthreadState.handles, map_set]
      show (s.threads.map PthreadData.handle).set i s.threads[i].handle = s.handles
      rw [← map_set, set_getElem_self, PthreadState.handles]

structure Tracks (calls : List (ℕ × Call)) (s : PthreadState) (log : List Entry) : Prop where
  empty : s.Empty
  started (t : ℕ) : t ∈ s.handles ↔ Started calls t
  last (t : ℕ) (k : Key) : lastSet log t k = lastValue t k calls

theorem started_cons : Started (c :: earlier) t ↔ c.2 = .create t ∨ Started earlier t := by
  simp only [Started, exists_mem_cons_iff]

theorem lastSet_cons (e : Entry) (log : List Entry) (t : ℕ) (k : Key) :
    lastSet (e :: log) t k = (e.setFor t k).getD (lastSet log t k) := by
  rw [lastSet, findSome?_cons]
  cases e.setFor t k with
  | none | some v => rfl

theorem Tracks.other (h : Tracks calls s log) (hthreads : s'.threads = s.threads) (hcreate : ∀ u, c ≠ .create u)
    (hset : ∀ k v, c ≠ .setspecific k v) : Tracks ((t, c) :: calls) s' (⟨t, c, r⟩ :: log) where
  empty := by
    rw [PthreadState.Empty, hthreads]
    exact h.empty
  started u := by
    rw [PthreadState.handles, hthreads, started_cons, or_iff_right (hcreate u)]
    exact h.started u
  last u k := by
    rw [lastSet_cons, h.last]
    cases c with
    | setspecific key value => exact absurd rfl (hset key value)
    | _ => rfl

/-- **One call**: it has a result, and the result is right exactly if the call is harmless. -/
theorem step_spec (h : Tracks calls s log) (c : ℕ × Call) :
    ∃ s' r, step s c.1 c.2 = some (s', r) ∧ Tracks (c :: calls) s' (⟨c.1, c.2, r⟩ :: log) ∧
      (Right log ⟨c.1, c.2, r⟩ ↔ Harmless calls c) := by
  obtain ⟨t, call⟩ := c
  cases call with
  | keyCreate =>
    refine ⟨_, _, rfl, h.other rfl (by simp) (by simp), ?_⟩
    simp [Right, Harmless]
  | setspecific key value =>
    obtain ⟨s', hstep, hempty, hhandles⟩ := pthreadSetspecific_spec h.empty t key value
    refine ⟨s', _, hstep, ⟨hempty, fun u => ?_, fun u k => ?_⟩, by simp [Right, Harmless]⟩
    · rw [hhandles, started_cons, h.started]
      simp
    · rw [lastSet_cons, h.last, lastValue]
      simp only [Entry.setFor, h.started]
      by_cases hset : t = u ∧ key = k
      · obtain ⟨rfl, rfl⟩ := hset
        by_cases hstarted : Started calls t
        · simp [hstarted]
        · simp [hstarted, einval]
      · rw [if_neg fun hall => hset ⟨hall.1, hall.2.1⟩, if_neg fun hall => hset ⟨hall.1, hall.2.1⟩]
        rfl
  | getspecific key =>
    refine ⟨s, _, pthreadGetspecific_eq h.empty t key, h.other rfl (by simp) (by simp), ?_⟩
    simp only [Right, Harmless, h.last]
    exact eq_comm
  | create handle =>
    refine ⟨_, _, rfl, ⟨fun data hdata => ?_, fun u => ?_, fun u k => ?_⟩, by simp [Right, Harmless]⟩
    · rcases mem_append.mp hdata with hdata | hdata
      · exact h.empty data hdata
      · rw [mem_singleton.mp hdata]
    · rw [started_cons, ← h.started, PthreadState.handles, PthreadState.handles, or_comm]
      simp [eq_comm]
    · rw [lastSet_cons, h.last]
      rfl

/-- **A run.** -/
theorem run_spec (calls : List (ℕ × Call)) :
    ∃ s log, run calls = some (s, log) ∧ Tracks calls s log ∧ (Works log ↔ AllHarmless calls) := by
  induction calls with
  | nil =>
    refine ⟨_, _, rfl, ⟨fun data hdata => absurd hdata (not_mem_nil), fun t => ?_, fun t k => rfl⟩, Iff.rfl⟩
    simp [PthreadState.handles, PthreadState.initial, Started]
  | cons c earlier ih =>
    obtain ⟨s, log, hrun, htracks, hworks⟩ := ih
    obtain ⟨s', r, hstep, htracks', hright⟩ := step_spec htracks c
    refine ⟨s', ⟨c.1, c.2, r⟩ :: log, ?_, htracks', and_congr hright hworks⟩
    rw [run, hrun]
    simp only [hstep, map_some]

/-- **The functions for keys work in a run exactly if** no key is made and no value is asked for that has been set. -/
theorem keys_work_iff (calls : List (ℕ × Call)) : KeysWork calls ↔ AllHarmless calls := by
  obtain ⟨s, log, hrun, -, hworks⟩ := run_spec calls
  rw [← hworks]
  constructor
  · rintro ⟨s', log', hrun', hlog⟩
    cases hrun.symm.trans hrun'
    exact hlog
  · intro hlog
    exact ⟨s, log, hrun, hlog⟩

/-- The first key is returned as an error code, and a value that has been set is not there. -/
theorem keys_fail :
    ((∃ s, run [(1, .keyCreate)] = some (s, [⟨1, .keyCreate, .keyCreate 1 none⟩])) ∧ ¬ KeysWork [(1, .keyCreate)]) ∧
      (∃ s, run [(2, .getspecific 1), (2, .setspecific 1 7), (1, .create 2)] =
        some (s, [⟨2, .getspecific 1, .getspecific 0⟩, ⟨2, .setspecific 1 7, .setspecific 0⟩,
          ⟨1, .create 2, .create 0⟩])) ∧
      ¬ KeysWork [(2, .getspecific 1), (2, .setspecific 1 7), (1, .create 2)] := by
  refine ⟨⟨⟨_, rfl⟩, ?_⟩, ⟨_, rfl⟩, ?_⟩
  · rintro ⟨s, log, hrun, hworks⟩
    cases hrun
    exact absurd hworks.1.1 (by decide)
  · rintro ⟨s, log, hrun, hworks⟩
    cases hrun
    have hvalue : 0 = 7 := hworks.1
    exact absurd hvalue (by decide)

end Btos.User.Newlib.Pthread
