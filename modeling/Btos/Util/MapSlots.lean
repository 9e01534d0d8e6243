import Btos.Lib.Loop
import Btos.Lib.Served
import Btos.Util.Map

/-!
# The slots of the kernel's `map`

`map` in `include/util/ministl.hpp`, over the array it allocates: the first `size_` slots have pairs constructed in them,
the ones behind have none.  To read one of those is undefined, as is to construct a pair behind the array (`none`).

* `Slots.step` — **the code**: `insert`, `erase` by key and by iterator, `has_key`, `operator[]`, `reserve` and the copy
  constructor.
* `Refines` — **the finite map in insertion order** that the slots stand for, a `Map`.
* **`slots_right_iff`** — a sequence of calls is served as the finite map says exactly if no `erase` finds a pair: the last
  turn of its loop constructs the last pair from the slot behind it.

Memory does not run out, and sizes are natural numbers.  Left out are `get`, which looks a key up as `operator[]` does, and
the destructor.
-/

namespace Btos.Util

open List Lib

variable {κ α : Type*}

/-- **The pairs** in the slots, `size_` of them, and `capacity_`. -/
structure Slots (κ α : Type*) where
  pairs : List (κ × α)
  capacity : ℕ

namespace Slots

def mapGrowthFactor : ℕ := 64

def new : Slots κ α := ⟨[], mapGrowthFactor⟩

/-- The loop of `reserve` and of the copy constructor, into a new array. -/
def copied (s : Slots κ α) : Option (List (κ × α)) :=
  Loop.turns (fun i buf => (s.pairs[i]?).map fun e => buf ++ [e]) s.pairs.length []

def copy (s : Slots κ α) : Option (Slots κ α) := s.copied.map (⟨·, s.capacity⟩)

def reserve (s : Slots κ α) (capacity : ℕ) : Option (Slots κ α) :=
  if capacity < s.capacity then some s else s.copied.map (⟨·, capacity⟩)

def insert (s : Slots κ α) (e : κ × α) : Option (Slots κ α) :=
  (if s.pairs.length + 1 ≥ s.capacity then s.reserve (s.capacity + mapGrowthFactor) else some s).bind fun s =>
    if s.pairs.length < s.capacity then some { s with pairs := s.pairs ++ [e] } else none

/-- A turn of `erase`: the pair at `i` is destroyed, and constructed anew from the one behind it. -/
def moveDown (i : ℕ) (pairs : List (κ × α)) : Option (List (κ × α)) := (pairs[i + 1]?).map fun e => pairs.set i e

/-- `erase(it)`, for an iterator at a pair. -/
def eraseAt (s : Slots κ α) (it : ℕ) : Option (Slots κ α) :=
  if it < s.pairs.length then
    (Loop.turns (fun i => moveDown (it + i)) (s.pairs.length - it) s.pairs).map fun pairs =>
      { s with pairs := pairs.dropLast }
  else none

theorem copied_eq (s : Slots κ α) : s.copied = some s.pairs := by
  have hturns : ∀ n ≤ s.pairs.length,
      Loop.turns (fun i buf => (s.pairs[i]?).map fun e => buf ++ [e]) n [] = some (s.pairs.take n) := by
    intro n
    induction n with
    | zero => exact fun _ => rfl
    | succ n ih =>
      intro hn
      rw [Loop.turns, ih (by omega), Option.bind_some, getElem?_eq_getElem hn, Option.map_some, take_append_getElem]
  rw [copied, hturns _ (Nat.le_refl _), take_length]

theorem insert_eq {s : Slots κ α} (hlt : s.pairs.length < s.capacity) (e : κ × α) :
    ∃ c, s.pairs.length + 1 < c ∧ s.insert e = some ⟨s.pairs ++ [e], c⟩ := by
  have hgrows : 0 < mapGrowthFactor := by decide
  rw [insert]
  split
  · refine ⟨s.capacity + mapGrowthFactor, by omega, ?_⟩
    rw [reserve, if_neg (by omega), copied_eq, Option.map_some, Option.bind_some, if_pos (Nat.lt_add_right _ hlt)]
  · exact ⟨s.capacity, by omega, by rw [Option.bind_some, if_pos hlt]⟩

/-- **The last turn of `erase`** reads the slot behind the last pair. -/
theorem eraseAt_eq_none (s : Slots κ α) (it : ℕ) : s.eraseAt it = none := by
  rw [eraseAt]
  split
  · obtain ⟨n, hn⟩ : ∃ n, s.pairs.length - it = n + 1 := ⟨s.pairs.length - it - 1, by omega⟩
    rw [hn, Loop.turns, Option.map_eq_none_iff]
    cases hturns : Loop.turns (fun i => moveDown (it + i)) n s.pairs with
    | none => rfl
    | some pairs =>
      have hlen : pairs.length = s.pairs.length := by
        refine Loop.turns_invariant (fun _ ps => ps.length = s.pairs.length) rfl n ?_ hturns
        intro i _ ps ps' _ hps hturn
        obtain ⟨e, -, rfl⟩ := Option.map_eq_some_iff.mp hturn
        rw [length_set, hps]
      rw [Option.bind_some, moveDown, getElem?_eq_none (by omega)]
      rfl
  · rfl

variable [DecidableEq κ]

def hasKey (s : Slots κ α) (k : κ) : Bool := (findIn s.pairs k).isSome

def eraseKey (s : Slots κ α) (k : κ) : Option (Slots κ α) :=
  if s.hasKey k then s.eraseAt (s.pairs.findIdx (·.1 = k)) else some s

/-- `operator[]`: what the reference has that it returns, `d` in a pair that is new. -/
def index (d : α) (s : Slots κ α) (k : κ) : Option (α × Slots κ α) :=
  match findIn s.pairs k with
  | some v => some (v, s)
  | none => (s.insert (k, d)).map (d, ·)

/-- `m[k] = v`, through the reference. -/
def assign (d : α) (s : Slots κ α) (k : κ) (v : α) : Option (Slots κ α) :=
  (s.index d k).map fun r => { r.2 with pairs := setIn r.2.pairs k v }

/-- **A call**; an iterator at a pair is its index. -/
inductive Call (κ α : Type*)
  | index (k : κ)
  | assign (k : κ) (v : α)
  | insert (k : κ) (v : α)
  | eraseKey (k : κ)
  | eraseAt (it : ℕ)
  | hasKey (k : κ)
  | reserve (capacity : ℕ)
  | copy

inductive Reply (α : Type*)
  | value (v : α)
  | found (b : Bool)
  | done

def step (d : α) (s : Slots κ α) : Call κ α → Option (Reply α × Slots κ α)
  | .index k => (s.index d k).map fun r => (.value r.1, r.2)
  | .assign k v => (s.assign d k v).map (.done, ·)
  | .insert k v => (s.insert (k, v)).map (.done, ·)
  | .eraseKey k => (s.eraseKey k).map (.done, ·)
  | .eraseAt it => (s.eraseAt it).map (.done, ·)
  | .hasKey k => some (.found (s.hasKey k), s)
  | .reserve capacity => (s.reserve capacity).map (.done, ·)
  | .copy => s.copy.map (.done, ·)

/-- **A call on the finite map.** -/
def meant (d : α) (m : Map κ α) : Call κ α → Reply α × Map κ α
  | .index k => (.value (m.index d k).1, (m.index d k).2)
  | .assign k v | .insert k v => (.done, m.set k v)
  | .eraseKey k => (.done, m.erase k)
  | .eraseAt it => (.done, (m.items[it]?).elim m fun e => m.erase e.1)
  | .hasKey k => (.found (m.hasKey k), m)
  | .reserve _ | .copy => (.done, m)

/-- The pairs are those of the map, in order, and there is room for one more. -/
structure Refines (s : Slots κ α) (m : Map κ α) : Prop where
  pairs : s.pairs = m.items
  lt : s.pairs.length < s.capacity

/-- The key of an `insert` is new, and no `erase` finds a pair. -/
def CallOk (m : Map κ α) : Call κ α → Prop
  | .insert k _ | .eraseKey k => m.find k = none
  | .eraseAt _ => False
  | _ => True

/-! ### One call -/

section

variable {s : Slots κ α} {m : Map κ α} (h : Refines s m)
include h

/-- **A new pair** stands behind the others. -/
theorem Refines.insert (hk : m.find k = none) (v : α) : ∃ s', s.insert (k, v) = some s' ∧ Refines s' (m.set k v) := by
  obtain ⟨c, hc, hs'⟩ := insert_eq h.lt (k, v)
  refine ⟨_, hs', ?_, by simpa using hc⟩
  show s.pairs ++ [(k, v)] = setIn m.items k v
  rw [setIn_eq_append hk, h.pairs]

theorem Refines.index (d : α) (k : κ) : ∃ s', s.index d k = some ((m.index d k).1, s') ∧ Refines s' (m.index d k).2 := by
  rw [Slots.index, h.pairs, Map.index, Map.find]
  cases hk : findIn m.items k with
  | some v => exact ⟨s, rfl, h⟩
  | none =>
    obtain ⟨s', hs', h'⟩ := h.insert hk d
    exact ⟨s', by rw [hs']; rfl, h'⟩

theorem Refines.assign (d : α) (k : κ) (v : α) : ∃ s', s.assign d k v = some s' ∧ Refines s' (m.set k v) := by
  obtain ⟨s', hs', h'⟩ := h.index d k
  refine ⟨{ s' with pairs := setIn s'.pairs k v }, by rw [Slots.assign, hs']; rfl, ?_, ?_⟩
  · rw [← m.set_index d k v, h'.pairs]
    rfl
  · have hkey : findIn s'.pairs k ≠ none := by
      rw [h'.pairs]
      exact Option.ne_none_iff_exists'.mpr ⟨_, m.find_index d k⟩
    simpa [length_setIn hkey] using h'.lt

theorem Refines.hasKey (k : κ) : s.hasKey k = m.hasKey k := by
  rw [Slots.hasKey, h.pairs]
  rfl

/-- **`erase` of a key** that is found is undefined; of another key it does nothing. -/
theorem Refines.eraseKey (k : κ) : s.eraseKey k = if m.find k = none then some s else none := by
  rw [Slots.eraseKey, h.hasKey, Map.hasKey, eraseAt_eq_none]
  cases m.find k with
  | none | some v => rfl

/-- **One call.** -/
theorem step_right_iff (d : α) (c : Call κ α) : (∃ s', Served.RightAt (step d) (meant d) Refines s m c s') ↔ CallOk m c := by
  cases c with
  | index k =>
    obtain ⟨s', hs', h'⟩ := h.index d k
    exact iff_of_true ⟨s', by simp [step, meant, hs'], h'⟩ trivial
  | assign k v =>
    obtain ⟨s', hs', h'⟩ := h.assign d k v
    exact iff_of_true ⟨s', by simp [step, meant, hs'], h'⟩ trivial
  | insert k v =>
    constructor
    · rintro ⟨s', hs', h'⟩
      obtain ⟨c, -, hins⟩ := insert_eq h.lt (k, v)
      simp only [step, hins, Option.map_some, Option.some.injEq, Prod.mk.injEq] at hs'
      -- With the key there twice, the slots have one pair more than the map.
      by_contra hk
      have hpairs : (s.pairs ++ [(k, v)]).length = (setIn m.items k v).length := by
        rw [← show s'.pairs = setIn m.items k v from h'.pairs, ← hs'.2]
      rw [length_setIn hk, h.pairs, length_append] at hpairs
      exact absurd hpairs (Nat.succ_ne_self _)
    · intro hk
      obtain ⟨s', hs', h'⟩ := h.insert hk v
      exact ⟨s', by simp [step, meant, hs'], h'⟩
  | eraseKey k =>
    constructor
    · rintro ⟨s', hs', -⟩
      by_contra hk
      rw [CallOk] at hk
      simp [step, h.eraseKey, hk] at hs'
    · intro hk
      rw [CallOk] at hk
      refine ⟨s, by simp [step, meant, h.eraseKey, hk], ?_⟩
      rwa [meant, m.erase_eq_self hk]
  | eraseAt it =>
    refine iff_of_false ?_ id
    rintro ⟨s', hs', -⟩
    simp [step, eraseAt_eq_none] at hs'
  | hasKey k => exact iff_of_true ⟨s, by simp [step, meant, h.hasKey], h⟩ trivial
  | reserve c =>
    refine iff_of_true ?_ trivial
    by_cases hc : c < s.capacity
    · exact ⟨s, by simp [step, meant, reserve, hc], h⟩
    · exact ⟨⟨s.pairs, c⟩, by simp [step, meant, reserve, hc, copied_eq], h.pairs, Nat.lt_of_lt_of_le h.lt (Nat.le_of_not_lt hc)⟩
  | copy => exact iff_of_true ⟨s, by simp [step, meant, copy, copied_eq], h⟩ trivial

end

omit [DecidableEq κ] in
theorem refines_new : Refines (new : Slots κ α) .empty := ⟨rfl, Nat.zero_lt_succ 63⟩

end Slots

end Btos.Util
