import Btos.Lib.Slots
import Btos.Lib.Transition

/-!
# File descriptors and their duplicates

`newlib/libc/sys/btos/crt_support.c` and `syscalls.c`.  A descriptor is the index of a pointer to a record.  A record is a
file of the kernel, a stream that is not there, or a duplicate, which has the address of another record.  A second table
has an entry for each record that has duplicates, with their number.

* `btosDup`, `btosClose`, `sysOpen`, `sysDup`, `sysClose` — **the code**; `none` is the use of a null pointer or of a
  record that has been freed;
* `Run`, `step` — a run, with **the table there is to be**: a duplicate stands for the file of the descriptor it was made
  from, and a descriptor that has been closed for none.
-/

namespace Btos.User.Newlib.Descriptors

open Lib.Slots Function

/-! ### The two tables -/

/-- `virtual_handle`. -/
inductive Record where
  /-- `HANDLE_NULL`. -/
  | null
  /-- `HANDLE_OS`. -/
  | os (handle : ℕ)
  /-- `HANDLE_DUP`. -/
  | dup (parent : ℕ)
  deriving DecidableEq, Repr

/-- `struct dup`. -/
structure Dup where
  vh : ℕ
  count : ℕ
  pendClose : Bool
  deriving DecidableEq, Repr

/-- The memory for records, the static variables, and the files that have been opened and closed. -/
structure Crt where
  heap : ℕ → Option Record
  next : ℕ
  filehandles : List (Option ℕ)
  dups : List (Option Dup)
  opened : List ℕ
  closes : List ℕ

def Crt.malloc (s : Crt) (r : Record) : Crt × ℕ :=
  ({ s with heap := update s.heap s.next (some r), next := s.next + 1 }, s.next)

/-- `btos_get_handle_virt`, once the standard streams are there. -/
def Crt.ptr (s : Crt) (fd : ℕ) : Option ℕ := slot s.filehandles fd

/-- `btos_set_filenum_virt`: the first descriptor that is free. -/
def btosSetFilenumVirt (s : Crt) (vh : ℕ) : Crt × ℕ :=
  match s.filehandles.findIdx? (fun o => o.isNone) with
  | some i => ({ s with filehandles := s.filehandles.set i (some vh) }, i)
  | none => ({ s with filehandles := s.filehandles ++ [some vh] }, s.filehandles.length)

def btosRemoveFilenum (s : Crt) (fd : ℕ) : Crt :=
  match s.ptr fd with
  | none => s
  | some p => { s with heap := update s.heap p none, filehandles := s.filehandles.set fd none }

/-! ### Duplicates -/

/-- The loop of `btos_dup`: `idx`, and `zidx` up to there. -/
def dupSearch (vh : ℕ) : List (Option Dup) → ℕ → Option ℕ → Option ℕ × Option ℕ
  | [], _, zidx => (none, zidx)
  | none :: ds, i, _ => dupSearch vh ds (i + 1) (some i)
  | some d :: ds, i, zidx => if d.vh = vh then (some i, zidx) else dupSearch vh ds (i + 1) zidx

/-- The table with an entry for `vh`, and where it is. -/
def dupEntry (dups : List (Option Dup)) (vh : ℕ) : List (Option Dup) × ℕ :=
  match dupSearch vh dups 0 none with
  | (some idx, _) => (dups, idx)
  | (none, some zidx) => (dups.set zidx (some ⟨vh, 0, false⟩), zidx)
  | (none, none) => (dups ++ [some ⟨vh, 0, false⟩], dups.length)

/-- `dups[idx]->count++`. -/
def countUp (dups : List (Option Dup)) (idx : ℕ) : List (Option Dup) :=
  match slot dups idx with
  | none => dups
  | some d => dups.set idx (some { d with count := d.count + 1 })

/-- `btos_dup`: the address of the new record. -/
def btosDup (s : Crt) (vh : ℕ) : Crt × ℕ :=
  let entry := dupEntry s.dups vh
  { s with dups := countUp entry.1 entry.2 }.malloc (.dup vh)

/-! ### Closing -/

/-- The record `p` is not a duplicate.  If it has duplicates, it is to be closed after them. -/
def closeOriginal (s : Crt) (p : ℕ) (r : Record) : Crt × Bool :=
  match r with
  | .os handle =>
      match s.dups.findIdx? (fun o => o.any fun d => d.vh = p) with
      | some i =>
          ({ s with dups := s.dups.modify i fun o => o.map fun d => { d with pendClose := true } }, false)
      -- `bt_fclose` leaves the number of the call in the register of the result
      | none => ({ s with closes := s.closes ++ [handle] }, true)
  | _ => (s, false)

/-- The loop for a duplicate: where the entry of its parent is.  Entries are not tested for null pointers. -/
def closeScan (parent : ℕ) : List (Option Dup) → ℕ → Option (Option ℕ)
  | [], _ => some none
  | none :: _, _ => none
  | some d :: ds, i => if d.vh = parent then some (some i) else closeScan parent ds (i + 1)

/-- The record that has waited for its last duplicate; `pend_close` is never set for a duplicate. -/
def closePending (s : Crt) (p : ℕ) : Option Crt :=
  match s.heap p with
  | none => none
  | some (.dup _) => some s
  | some r => some (closeOriginal s p r).1

/-- One duplicate less of the entry `d` at `i`. -/
def closeEntry (s : Crt) (i : ℕ) (d : Dup) : Option Crt :=
  if d.count - 1 = 0 then
    let s := { s with dups := s.dups.set i none }
    if d.pendClose then closePending s d.vh else some s
  else some { s with dups := s.dups.set i (some { d with count := d.count - 1 }) }

/-- `btos_close` for a duplicate. -/
def closeDup (s : Crt) (parent : ℕ) : Option (Crt × Bool) :=
  match closeScan parent s.dups 0 with
  | none => none
  | some none => some (s, false)
  | some (some i) =>
      match slot s.dups i with
      | none => none
      | some d => (closeEntry s i d).map fun s => (s, true)

def btosClose (s : Crt) (p : ℕ) : Option (Crt × Bool) :=
  match s.heap p with
  | none => none
  | some (.dup parent) => closeDup s parent
  | some r => some (closeOriginal s p r)

/-! ### The calls -/

/-- `_open` of a file that is there: `btos_set_filenum` with the new handle. -/
def sysOpen (s : Crt) : Crt × ℕ :=
  let handle := s.next
  let m := s.malloc (.os handle)
  btosSetFilenumVirt { m.1 with opened := handle :: m.1.opened } m.2

/-- `_dup`; `none` is the return value -1. -/
def sysDup (s : Crt) (fd : ℕ) : Crt × Option ℕ :=
  match s.ptr fd with
  | none => (s, none)
  | some vh =>
      let m := btosDup s vh
      let r := btosSetFilenumVirt m.1 m.2
      (r.1, some r.2)

/-- `_close`, with its return value. -/
def sysClose (s : Crt) (fd : ℕ) : Option (Crt × ℤ) :=
  match s.ptr fd with
  | none => some (s, -1)
  | some p =>
      match btosClose s p with
      | none => none
      | some (s, true) => some (btosRemoveFilenum s fd, 0)
      | some (s, false) => some (s, 1)

/-! ### What is to be -/

inductive Target where
  | null
  | file (handle : ℕ)
  deriving DecidableEq, Repr

/-- What reading and writing find at a descriptor. -/
inductive Shown where
  | free
  | target (t : Target)
  /-- A record that has been freed, or a duplicate of a duplicate, taken for a record with functions. -/
  | broken
  deriving DecidableEq, Repr

def Record.target : Option Record → Shown
  | some .null => .target .null
  | some (.os handle) => .target (.file handle)
  | _ => .broken

/-- What `_read` and `_write` use. -/
def Crt.shows (s : Crt) (fd : ℕ) : Shown :=
  match s.ptr fd with
  | none => .free
  | some p =>
      match s.heap p with
      | some (.dup parent) => Record.target (s.heap parent)
      | r => Record.target r

/-- A run, and what each descriptor is to stand for. -/
structure Run where
  crt : Crt
  crashed : Bool
  spec : ℕ → Option Target

inductive Call where
  | openFile
  | dup (fd : ℕ)
  | close (fd : ℕ)
  deriving DecidableEq, Repr

def step (r : Run) (c : Call) : Option Run :=
  if r.crashed then none
  else match c with
    | .openFile =>
        let result := sysOpen r.crt
        some { r with crt := result.1, spec := update r.spec result.2 (some (.file r.crt.next)) }
    | .dup fd =>
        match sysDup r.crt fd with
        | (crt, none) => some { r with crt := crt }
        | (crt, some fd') => some { r with crt := crt, spec := update r.spec fd' (r.spec fd) }
    | .close fd =>
        match sysClose r.crt fd with
        | none => some { r with crashed := true }
        | some (crt, _) => some { r with crt := crt, spec := update r.spec fd none }

/-- A standard stream of the new process, if there is one. -/
def Run.addStream (r : Run) (given : Bool) : Run :=
  if given then
    let result := sysOpen r.crt
    { r with crt := result.1, spec := update r.spec result.2 (some (.file r.crt.next)) }
  else
    { r with
      crt := { r.crt with filehandles := r.crt.filehandles ++ [some 0] }
      spec := update r.spec r.crt.filehandles.length (some .null) }

/-- Nothing is open; `null_virt_handle` is at the address 0. -/
def Run.empty : Run where
  crt := ⟨update (fun _ => none) 0 (some .null), 1, [], [], [], []⟩
  crashed := false
  spec := fun _ => none

/-- `btos_open_std_streams`, before `main`. -/
def Run.initial (stdin stdout stderr : Bool) : Run := ((Run.empty.addStream stdin).addStream stdout).addStream stderr

def shown : Option Target → Shown
  | none => .free
  | some t => .target t

/-- **The tables agree**, nothing has gone wrong, and a file has been closed if no descriptor stands for it any more, and
only once. -/
structure Right (r : Run) : Prop where
  alive : r.crashed = false
  shows : ∀ fd, r.crt.shows fd = shown (r.spec fd)
  kept : ∀ h ∈ r.crt.opened, (∃ fd, r.spec fd = some (.file h)) → r.crt.closes.count h = 0
  closed : ∀ h ∈ r.crt.opened, (∀ fd, r.spec fd ≠ some (.file h)) → r.crt.closes.count h = 1

def Crt.record (s : Crt) (fd : ℕ) : Option Record := (s.ptr fd).bind s.heap

/-- No null pointer stands before the entry of `parent`. -/
def noNullBefore (parent : ℕ) : List (Option Dup) → Bool
  | [] => true
  | none :: _ => false
  | some d :: ds => d.vh = parent || noNullBefore parent ds

/-- `dup` is called for a descriptor that is no duplicate; `close` for a file without duplicates, or for a duplicate
whose parent's entry has no null pointer before it. -/
def StepOk (r : Run) : Call → Prop
  | .openFile => True
  | .dup fd => ∀ parent, r.crt.record fd ≠ some (.dup parent)
  | .close fd =>
      match r.crt.record fd with
      | none => True
      | some .null => False
      | some (.os _) => ∀ d ∈ r.crt.dups, ∀ e, d = some e → r.crt.ptr fd ≠ some e.vh
      | some (.dup parent) => noNullBefore parent r.crt.dups = true

instance decidableStepOk (r : Run) : (c : Call) → Decidable (StepOk r c)
  | .openFile => .isTrue trivial
  | .dup fd =>
      match h : r.crt.record fd with
      | some (.dup parent) => .isFalse fun hok => hok parent h
      | some (.os _) | some .null | none => .isTrue (by simp [StepOk, h])
  | .close fd =>
      match h : r.crt.record fd with
      | none => .isTrue (by simp only [StepOk, h])
      | some .null => .isFalse (by simp only [StepOk, h, not_false_eq_true])
      | some (.os _) =>
          decidable_of_iff (∀ d ∈ r.crt.dups, (d.all fun e => r.crt.ptr fd ≠ some e.vh) = true)
            (by simp [StepOk, h, Option.all_eq_true])
      | some (.dup parent) => decidable_of_iff (noNullBefore parent r.crt.dups = true) (by simp only [StepOk, h])

end Btos.User.Newlib.Descriptors
