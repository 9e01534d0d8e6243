import Btos.Kernel.Processes.Process
import Btos.Util.MapSlots

/-!
# The mount table

`VirtualFilesystem` in `kernel/filesystems.cpp`: mounted file systems under upper-case names, in a `map`, whose slots are
modelled here.  A call that reads a slot without a pair, or goes through a null pointer, is undefined (`none`).

* **An index that inserts.** `GetByName` looks for the upper-case name, and then reads `mounts[name]`.  For another
  spelling that enters a null pointer under the spelling, and returns it.
* **A name that is erased.** `Detach` of an attached name constructs a string from a slot that has none.
* **`run_right_iff`** — a sequence of calls is served as it should be exactly if no attached name is detached, `GetByName`
  is called with the upper-case spellings of attached names only, and `GetNode` with a path behind the colon.

A file system is a value of a type that is not looked into; `GetNode` returns it with the rest of the path.  Left out are
the lock, `Path`, and the file of mounts.
-/

namespace Btos.Kernel.Filesystems

open Util Processes Function List Lib

def validNameChars : List Char := "ABCDEFGHIJKLMNOPQRSTUVWXYZabcdefghijklmnopqrstuvwxyz_1234567890".toList

def isNameValid (name : Text) : Bool := name.all (· ∈ validNameChars) && decide (name.length > 0)

variable {FS : Type}

/-- **`mounts`**; `none` is a null pointer. -/
abbrev Mounts (FS : Type) := Slots Text (Option FS)

/-- **A call**, with a file system for `Attach`. -/
inductive Call (FS : Type)
  | attach (name : Text) (mount : FS)
  | detach (name : Text)
  | getByName (name : Text)
  | getNode (path : Text)

/-- **What a call returns.** `GetNode` hands the rest of the path on to a file system. -/
inductive Reply (FS : Type)
  | attached (b : Bool)
  | mount (m : Option FS)
  | node (n : Option (FS × Text))
  deriving DecidableEq

/-- `Attach`, `Detach`, `GetByName` and `GetNode`. -/
def step (mounts : Mounts FS) : Call FS → Option (Reply FS × Mounts FS)
  | .attach name mount =>
    if ¬isNameValid name then some (.attached false, mounts)
    else if mounts.hasKey (toUpper name) then some (.attached false, mounts)
    else (mounts.assign none (toUpper name) (some mount)).map (.attached true, ·)
  | .detach name =>
    if ¬mounts.hasKey (toUpper name) then some (.mount none, mounts)
    else (mounts.index none (toUpper name)).bind fun r => (r.2.eraseKey (toUpper name)).map (.mount r.1, ·)
  | .getByName name =>
    if ¬isNameValid name then some (.mount none, mounts)
    else if ¬mounts.hasKey (toUpper name) then some (.mount none, mounts)
    else (mounts.index none name).map fun r => (.mount r.1, r.2)
  | .getNode path =>
    let mountName := path.takeWhile (· ≠ ':')
    match path.dropWhile (· ≠ ':') with
    | [] => some (.node none, mounts)
    | _ :: pathPart =>
      if ¬isNameValid mountName then some (.node none, mounts)
      else if path.length < mountName.length + 2 then some (.node none, mounts)
      else if ¬mounts.hasKey (toUpper mountName) then some (.node none, mounts)
      else (mounts.index none (toUpper mountName)).bind fun r => r.1.map fun fs => (.node (some (fs, pathPart)), r.2)

/-! ### What it is for -/

/-- **What is attached** under a name, in upper case. -/
abbrev Attached (FS : Type) := Text → Option FS

/-- **A call, as it is meant**: every spelling of a name stands for what is attached under it. -/
def meant (t : Attached FS) : Call FS → Reply FS × Attached FS
  | .attach name mount =>
    if isNameValid name ∧ t (toUpper name) = none then (.attached true, update t (toUpper name) (some mount))
    else (.attached false, t)
  | .detach name => (.mount (t (toUpper name)), update t (toUpper name) none)
  | .getByName name => (.mount (t (toUpper name)), t)
  | .getNode path =>
    match path.dropWhile (· ≠ ':') with
    | [] => (.node none, t)
    | _ :: pathPart => (.node ((t (toUpper (path.takeWhile (· ≠ ':')))).map (·, pathPart)), t)

/-- **The table holds what is attached**, without null pointers, under valid upper-case names.  They are distinct,
since a `Map` has no key twice. -/
structure Tabled (m : Map Text (Option FS)) (t : Attached FS) : Prop where
  find : ∀ name, m.find name = (t name).map some
  names : ∀ name, t name ≠ none → isNameValid name ∧ toUpper name = name

def Holds (mounts : Mounts FS) (t : Attached FS) : Prop := ∃ m, mounts.Refines m ∧ Tabled m t

/-- Every call returns what is meant, and leaves the table as it is meant to be. -/
def RunRight (calls : List (Call FS)) : Prop := Served.Right step meant Holds .new (fun _ => none) calls

def CallOk (t : Attached FS) : Call FS → Prop
  | .attach _ _ => True
  | .detach name => t (toUpper name) = none
  | .getByName name => t (toUpper name) ≠ none → toUpper name = name
  | .getNode path => path.dropWhile (· ≠ ':') = [':'] → t (toUpper (path.takeWhile (· ≠ ':'))) = none

def RunOk (calls : List (Call FS)) : Prop := Served.Within meant CallOk (fun _ => none) calls

/-! ### The result -/

theorem toUpperChar_valid : validNameChars.all (fun c =>
    decide (toUpperChar c ∈ validNameChars) && decide (toUpperChar (toUpperChar c) = toUpperChar c)) = true := by
  decide

theorem toUpper_valid (h : isNameValid name) :
    isNameValid (toUpper name) ∧ toUpper (toUpper name) = toUpper name := by
  simp only [isNameValid, Bool.and_eq_true, all_eq_true, decide_eq_true_eq] at h
  have hc : ∀ c ∈ name, toUpperChar c ∈ validNameChars ∧ toUpperChar (toUpperChar c) = toUpperChar c := by
    intro c hc
    simpa using all_eq_true.mp toUpperChar_valid c (h.1 c hc)
  constructor
  · simpa [isNameValid, toUpper] using And.intro (fun c hm => (hc c hm).1) h.2
  · simpa [toUpper] using fun c hm => (hc c hm).2

theorem valid_of_toUpperChar (h : toUpperChar c ∈ validNameChars) : c ∈ validNameChars := by
  unfold toUpperChar at h
  split at h
  · rename_i hc
    have hlower : ∀ n < 123, 97 ≤ n → Char.ofNat n ∈ validNameChars := by decide
    rw [← Char.ofNat_toNat c]
    exact hlower c.toNat (Nat.lt_succ_of_le hc.2) hc.1
  · exact h

section

variable {m : Map Text (Option FS)} {t : Attached FS} (h : Tabled m t)
include h

theorem Tabled.hasKey (name : Text) : m.hasKey name = (t name).isSome := by
  rw [Map.hasKey, h.find, Option.isSome_map]

theorem Tabled.index (hn : t name = some fs) : m.index none name = (some fs, m) := by
  rw [Map.index, h.find, hn]
  rfl

theorem Tabled.eq_none (hv : ¬isNameValid name) : t (toUpper name) = none := by
  by_contra hn
  obtain ⟨hvalid, -⟩ := h.names _ hn
  simp only [isNameValid, toUpper, all_map, length_map, Bool.and_eq_true, all_eq_true,
    Function.comp_apply, decide_eq_true_eq] at hvalid hv
  exact hv ⟨fun c hc => valid_of_toUpperChar (hvalid.1 c hc), hvalid.2⟩

theorem Tabled.set (hv : isNameValid name) (hu : toUpper name = name) (fs : FS) :
    Tabled (m.set name (some fs)) (update t name (some fs)) := by
  constructor
  · intro n
    rw [Map.find_set, h.find]
    by_cases hn : n = name
    · simp [hn]
    · simp [hn, Ne.symm hn]
  · intro n hn
    by_cases he : n = name
    · exact he ▸ ⟨hv, hu⟩
    · exact h.names n (by rwa [update_of_ne he] at hn)

end

/-- **One call.** -/
theorem step_right_iff (hold : Holds mounts t) (c : Call FS) :
    (∃ mounts', Served.RightAt step meant Holds mounts t c mounts') ↔ CallOk t c := by
  obtain ⟨m, hr, h⟩ := hold
  have hsame : Holds mounts t := ⟨m, hr, h⟩
  cases c with
  | attach name mount =>
    refine iff_of_true ?_ trivial
    simp only [Served.RightAt, step, meant, hr.hasKey, h.hasKey]
    by_cases hv : isNameValid name
    · cases ht : t (toUpper name) with
      | some fs => simpa [hv] using hsame
      | none =>
        obtain ⟨mounts', hs', hr'⟩ := hr.assign none (toUpper name) (some mount)
        have hset := h.set (toUpper_valid hv).1 (toUpper_valid hv).2 mount
        exact ⟨mounts', by simp [hv, hs'], by simpa [hv] using ⟨_, hr', hset⟩⟩
    · simpa [hv] using hsame
  | detach name =>
    simp only [Served.RightAt, step, meant, CallOk, hr.hasKey, h.hasKey]
    cases ht : t (toUpper name) with
    | none =>
      have hupdate : update t (toUpper name) none = t := ht ▸ update_eq_self ..
      simpa [hupdate] using hsame
    | some fs =>
      obtain ⟨mounts', hs', hr'⟩ := hr.index none (toUpper name)
      rw [h.index ht] at hs' hr'
      simp [hs', hr'.eraseKey, h.find, ht]
  | getByName name =>
    simp only [Served.RightAt, step, meant, CallOk, hr.hasKey, h.hasKey]
    by_cases hv : isNameValid name
    · cases ht : t (toUpper name) with
      | none => simpa [hv] using hsame
      | some fs =>
        obtain ⟨mounts', hs', hr'⟩ := hr.index none name
        by_cases hu : toUpper name = name
        · rw [h.index (hu ▸ ht)] at hs' hr'
          simpa [hv, hu, hs'] using ⟨m, hr', h⟩
        · have hn : t name = none := by
            by_contra hn
            exact hu (h.names name hn).2
          simp [hv, hu, hs', Map.index, h.find, hn]
    · simpa [hv, h.eq_none hv] using hsame
  | getNode path =>
    have hsplit : path.takeWhile (· ≠ ':') ++ path.dropWhile (· ≠ ':') = path := takeWhile_append_dropWhile
    have hhead := head?_dropWhile_not (· ≠ ':') path
    simp only [Served.RightAt, step, meant, CallOk, hr.hasKey, h.hasKey]
    generalize path.takeWhile (· ≠ ':') = mountName at hsplit ⊢
    cases hd : path.dropWhile (· ≠ ':') with
    | nil => simpa using hsame
    | cons c pathPart =>
      rw [hd] at hhead
      obtain rfl : c = ':' := by simpa using hhead
      have hlen : path.length = mountName.length + (pathPart.length + 1) := by rw [← hsplit, hd, length_append]; rfl
      by_cases hv : isNameValid mountName
      · cases ht : t (toUpper mountName) with
        | none => simpa [hv] using hsame
        | some fs =>
          cases pathPart with
          | nil => simp [hv, hlen]
          | cons a rest =>
            have hlong : ¬path.length < mountName.length + 2 := by
              rw [hlen, length_cons]
              omega
            obtain ⟨mounts', hs', hr'⟩ := hr.index none (toUpper mountName)
            rw [h.index ht] at hs' hr'
            simpa [hv, hlong, hs'] using ⟨m, hr', h⟩
      · simpa [hv, h.eq_none hv] using hsame

/-- **A sequence of calls is served as it is meant exactly under the condition.** -/
theorem run_right_iff (calls : List (Call FS)) : RunRight calls ↔ RunOk calls :=
  Served.right_iff (fun _ _ h c => step_right_iff h c)
    ⟨.empty, Slots.refines_new, fun _ => rfl, fun _ hn => absurd rfl hn⟩ calls

/-- A name is attached in lower case and looked up in the same spelling: `GetByName` returns null, and the table has a
null pointer under that spelling.  To detach the name is undefined. -/
theorem getByName_lower :
    let mounts : Mounts ℕ := ⟨[(['H', 'D'], some 7)], 64⟩
    step .new (.attach ['h', 'd'] 7) = some (.attached true, mounts) ∧
      step mounts (.getByName ['h', 'd']) = some (.mount none, ⟨mounts.pairs ++ [(['h', 'd'], none)], 64⟩) ∧
      step mounts (.detach ['h', 'd']) = none := by
  exact ⟨rfl, rfl, rfl⟩

end Btos.Kernel.Filesystems
