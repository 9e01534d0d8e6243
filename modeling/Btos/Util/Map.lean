import Mathlib.Data.List.Nodup
import Mathlib.Tactic.Common

/-!
# The kernel's `map`

`include/util/ministl.hpp`.  A map is an array of pairs in the order in which their keys came; every operation
walks it from the start, and `operator[]` appends a pair for a key that is not there.

* `findIn`, `setIn`, `eraseIn` — **the loops**, over the array.
* `Map` — **the finite map in insertion order** that the array stands for, with no key twice.

Erasing moves the later pairs down by one.  How the array grows, and what `erase` reads behind the last pair, is in
`Btos.Util.MapSlots`; where a `Map` stands for the code, the array is long enough and that read is harmless.
-/

namespace Btos.Util

open List Prod

variable {κ α : Type*} [DecidableEq κ]

/-! ### The loops -/

def findIn : List (κ × α) → κ → Option α
  | [], _ => none
  | e :: l, k => if e.1 = k then some e.2 else findIn l k

/-- `m[k] = v`: the first pair with the key gets the value; without one, a pair is appended. -/
def setIn : List (κ × α) → κ → α → List (κ × α)
  | [], k, v => [(k, v)]
  | e :: l, k, v => if e.1 = k then (e.1, v) :: l else e :: setIn l k v

/-- `m.erase(k)`: the first pair with the key goes. -/
def eraseIn : List (κ × α) → κ → List (κ × α)
  | [], _ => []
  | e :: l, k => if e.1 = k then l else e :: eraseIn l k

theorem findIn_eq_none_iff (l : List (κ × α)) (k : κ) : findIn l k = none ↔ k ∉ l.map fst := by
  induction l with
  | nil => simp [findIn]
  | cons e l ih =>
    by_cases h : e.1 = k
    · simp [findIn, h]
    · simp [findIn, h, ih, Ne.symm h]

theorem mem_of_findIn {l : List (κ × α)} {k : κ} {v : α} (h : findIn l k = some v) : (k, v) ∈ l := by
  induction l with
  | nil => simp [findIn] at h
  | cons e l ih =>
    by_cases he : e.1 = k
    · simp only [findIn, he, ite_true, Option.some.injEq] at h
      simp [← he, ← h]
    · simp only [findIn, he, ite_false] at h
      exact mem_cons_of_mem _ (ih h)

theorem findIn_of_mem {l : List (κ × α)} (hl : (l.map fst).Nodup) {k : κ} {v : α} (h : (k, v) ∈ l) :
    findIn l k = some v := by
  induction l with
  | nil => simp at h
  | cons e l ih =>
    simp only [map_cons, nodup_cons] at hl
    rcases mem_cons.mp h with rfl | h
    · simp [findIn]
    · have hne : e.1 ≠ k := by
        intro he
        exact hl.1 (he ▸ mem_map_of_mem h)
      simpa [findIn, hne] using ih hl.2 h

theorem findIn_setIn (l : List (κ × α)) (k j : κ) (v : α) :
    findIn (setIn l k v) j = if k = j then some v else findIn l j := by
  induction l with
  | nil => simp [setIn, findIn]
  | cons e l ih =>
    by_cases he : e.1 = k
    · by_cases hj : k = j <;> simp [setIn, findIn, he, hj]
    · by_cases hj : e.1 = j
      · have hkj : k ≠ j := fun h => he (hj.trans h.symm)
        simp [setIn, findIn, hj, hkj, hkj.symm]
      · simp [setIn, findIn, he, hj, ih]

theorem keys_setIn (l : List (κ × α)) (k : κ) (v : α) :
    (setIn l k v).map fst = if k ∈ l.map fst then l.map fst else l.map fst ++ [k] := by
  induction l with
  | nil => simp [setIn]
  | cons e l ih =>
    by_cases he : e.1 = k
    · simp [setIn, he]
    · simp only [setIn, he, ite_false, map_cons, ih, mem_cons, Ne.symm he, false_or]
      split <;> simp

theorem setIn_setIn (l : List (κ × α)) (k : κ) (d v : α) : setIn (setIn l k d) k v = setIn l k v := by
  induction l with
  | nil => simp [setIn]
  | cons e l ih =>
    by_cases he : e.1 = k
    · simp [setIn, he]
    · simp [setIn, he, ih]

theorem setIn_eq_append {l : List (κ × α)} (h : findIn l k = none) (v : α) : setIn l k v = l ++ [(k, v)] := by
  induction l with
  | nil => rfl
  | cons e l ih =>
    by_cases he : e.1 = k
    · simp [findIn, he] at h
    · simp only [findIn, he, ite_false] at h
      simp [setIn, he, ih h]

theorem length_setIn {l : List (κ × α)} (h : findIn l k ≠ none) (v : α) : (setIn l k v).length = l.length := by
  have hkeys := congrArg length (keys_setIn l k v)
  rwa [if_pos (Decidable.not_not.mp fun hk => h ((findIn_eq_none_iff l k).mpr hk)), length_map, length_map] at hkeys

theorem eraseIn_eq_self {l : List (κ × α)} (h : findIn l k = none) : eraseIn l k = l := by
  induction l with
  | nil => rfl
  | cons e l ih =>
    by_cases he : e.1 = k
    · simp [findIn, he] at h
    · simp only [findIn, he, ite_false] at h
      simp [eraseIn, he, ih h]

theorem keys_eraseIn_sublist (l : List (κ × α)) (k : κ) : ((eraseIn l k).map fst).Sublist (l.map fst) := by
  induction l with
  | nil => simp [eraseIn]
  | cons e l ih =>
    by_cases he : e.1 = k
    · simp [eraseIn, he]
    · simpa [eraseIn, he] using ih

theorem findIn_eraseIn (hl : (l.map fst).Nodup) (k j : κ) :
    findIn (eraseIn l k) j = if k = j then none else findIn l j := by
  induction l with
  | nil => simp [eraseIn, findIn]
  | cons e l ih =>
    simp only [map_cons, nodup_cons] at hl
    by_cases he : e.1 = k
    · by_cases hj : k = j
      · have hk : k ∉ l.map fst := he ▸ hl.1
        simpa [eraseIn, he, hj] using (findIn_eq_none_iff l j).mpr (hj ▸ hk)
      · simp [eraseIn, findIn, he, hj]
    · by_cases hj : e.1 = j
      · have hkj : k ≠ j := fun h => he (hj.trans h.symm)
        simp [eraseIn, findIn, hj, hkj, hkj.symm]
      · simp [eraseIn, findIn, he, hj, ih hl.2]

/-! ### The map -/

structure Map (κ α : Type*) where
  items : List (κ × α)
  nodup : (items.map fst).Nodup

instance [DecidableEq α] : DecidableEq (Map κ α) := fun m n =>
  if h : m.items = n.items then .isTrue (by cases m; cases n; cases h; rfl)
  else .isFalse fun he => h (congrArg Map.items he)

namespace Map

def empty : Map κ α := ⟨[], nodup_nil⟩

def find (m : Map κ α) (k : κ) : Option α := findIn m.items k

def hasKey (m : Map κ α) (k : κ) : Bool := (m.find k).isSome

/-- `m[k] = v`. -/
def set (m : Map κ α) (k : κ) (v : α) : Map κ α :=
  ⟨setIn m.items k v, by
    rw [keys_setIn]
    split
    · exact m.nodup
    · rename_i hk
      exact nodup_append.mpr ⟨m.nodup, by simp, by
        intro a ha b hb hab
        rw [mem_singleton.mp hb] at hab
        exact hk (hab ▸ ha)⟩⟩

def erase (m : Map κ α) (k : κ) : Map κ α :=
  ⟨eraseIn m.items k, m.nodup.sublist (keys_eraseIn_sublist m.items k)⟩

/-- **Reading `m[k]`**: the value, `d` for a key that is not there, which is then inserted with it. -/
def index (d : α) (m : Map κ α) (k : κ) : α × Map κ α :=
  match m.find k with
  | some v => (v, m)
  | none => (d, m.set k d)

@[simp] theorem find_empty (k : κ) : (empty : Map κ α).find k = none := rfl

theorem find_set (m : Map κ α) (k j : κ) (v : α) : (m.set k v).find j = if k = j then some v else m.find j :=
  findIn_setIn m.items k j v

@[simp] theorem find_set_self (m : Map κ α) (k : κ) (v : α) : (m.set k v).find k = some v := by
  simp [find_set]

theorem find_set_ne (m : Map κ α) (h : k ≠ j) (v : α) : (m.set k v).find j = m.find j := by
  simp [find_set, h]

theorem find_erase (m : Map κ α) (k j : κ) : (m.erase k).find j = if k = j then none else m.find j :=
  findIn_eraseIn m.nodup k j

theorem find_index (d : α) (m : Map κ α) (k : κ) : (m.index d k).2.find k = some (m.index d k).1 := by
  rw [index]
  cases hk : m.find k with
  | some v => exact hk
  | none => exact find_set_self m k d

theorem set_index (d : α) (m : Map κ α) (k : κ) (v : α) : (m.index d k).2.set k v = m.set k v := by
  rw [index]
  cases m.find k with
  | some w => rfl
  | none => simp only [set, setIn_setIn]

theorem erase_eq_self (m : Map κ α) (h : m.find k = none) : m.erase k = m := by
  simp only [erase, eraseIn_eq_self h]

theorem mem_items_iff (m : Map κ α) (k : κ) (v : α) : (k, v) ∈ m.items ↔ m.find k = some v :=
  ⟨findIn_of_mem m.nodup, mem_of_findIn⟩

end Map

end Btos.Util
