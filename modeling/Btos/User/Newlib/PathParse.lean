import Btos.User.Cmd.Path
import Btos.Lib.Buffer
import Mathlib.Data.List.TakeWhile

/-!
# Paths in a buffer

`btos_path_parse` of the C library (`libc/sys/btos/crt_support.c`) does what `parse_path` does, in a buffer of
characters: a segment is read behind the ones before it, `..` walks back over them, and the end of the path is
one more separator.

* `PState`, `parseStep`, `parseLoop` — **the loop over the characters**.  There is no result if memory outside of
  an array is used;
* `Outcome`, `Outcome.Safe` — **what is demanded of the function**.  A read outside of an array is not its end: here it
  goes on with what it has found, until it writes there.
-/

namespace Btos.User.Newlib

open User.Cmd List Option
open Lib.Buffer

/-! ### Strings in memory -/

def btMaxPath : ℕ := 1024

def btMaxSegLen : ℕ := 256

def nul : Char := '\x00'

def cString (mem : List Char) : List Char := mem.takeWhile fun c => c ≠ nul

/-- `strncpy` to an offset of an array. -/
def strncpy (dst : List Char) (o : ℕ) (src : List Char) (n : ℕ) : List Char :=
  dst.take o ++ (src.take n ++ replicate (n - src.length) nul) ++ dst.drop (o + n)

/-- `strncpy(&path[strlen(path)], src, BT_MAX_PATH-strlen(path))`. -/
def appendTo (path src : List Char) : List Char :=
  strncpy path (cString path).length src (btMaxPath - (cString path).length)

def btosPathIsAbsolute : List Char → Bool
  | [] => false
  | c :: cs => if c = ':' then true else if c = '/' then false else btosPathIsAbsolute cs

/-- `btos_get_drive_end`: where the first colon is. -/
def btosGetDriveEnd (path : List Char) : ℕ := (path.findIdx? fun c => c = ':').getD 0

/-- **The path that is parsed**, in an array that `calloc` has made. -/
def pathMemory (cwd opath : List Char) : List Char :=
  let path := replicate btMaxPath nul
  if btosPathIsAbsolute opath then strncpy path 0 opath btMaxPath
  else if opath.head? = some '/' then
    -- a longer directory is not ended in its array, but its drive is found there
    let cwd := cwd.take btMaxPath
    let path := strncpy path 0 cwd (btosGetDriveEnd cwd)
    appendTo (appendTo path [':']) opath
  else
    let path := strncpy path 0 cwd btMaxPath
    appendTo (appendTo path ['/']) opath

/-! ### The loop -/

structure PState where
  buffer : List Char
  bpos : ℕ
  ipos : ℕ
  cstart : ℕ
  hasDrive : Bool
  deriving DecidableEq, Repr

/-- The current segment, as it is copied to `cstr`. -/
def currentSegment (s : PState) : Option (List Char) :=
  if s.cstart < s.bpos then
    if s.bpos - s.cstart < btMaxSegLen then
      some (cString ((s.buffer.drop s.cstart).take (s.bpos - s.cstart)))
    else none
  else some []

/-- `bpos - 2`, as a `size_t`. -/
def twoBefore (bpos : ℕ) : ℕ := (bpos + 2 ^ 32 - 2) % 2 ^ 32

/-- **`..`**: its two characters go, and the segment before it, if there is one. -/
def dotDot (s : PState) : Option PState :=
  (write s.buffer (s.bpos - 1) nul).bind fun b =>
    (write b (s.bpos - 2) nul).bind fun b =>
      let bpos := s.bpos - 2
      let stay : PState := { s with buffer := b, bpos := bpos, cstart := bpos }
      if twoBefore bpos = 0 then some stay
      else
        b[twoBefore bpos]?.bind fun c =>
          if c = ':' then some stay
          else
            (write b (bpos - 1) nul).bind fun b =>
              (eraseBack nul '/' (bpos - 1) b).bind fun r =>
                (write r.1 r.2 '/').map fun b => { s with buffer := b, bpos := r.2 + 1, cstart := r.2 + 1 }

def push (s : PState) (c : Char) : Option PState :=
  (write s.buffer s.bpos c).map fun b => { s with buffer := b, bpos := s.bpos + 1 }

/-- **One character.**  `none` is a fault; `false` comes with a path that is refused. -/
def parseStep (c : Char) (s : PState) : Option (Bool × PState) :=
  if c = ':' then
    if !s.hasDrive && s.ipos ≠ 0 then
      ((push s ':').bind fun s => push s '/').map fun s =>
        (true, { s with cstart := s.bpos, hasDrive := true })
    else some (false, s)
  else if c = '/' ∨ c = '\n' ∨ c = nul then
    (currentSegment s).bind fun cstr =>
      if cstr = ['.', '.'] then (dotDot s).map fun s => (true, s)
      else if cstr = ['.'] then
        (write s.buffer (s.bpos - 1) nul).map fun b =>
          (true, { s with buffer := b, bpos := s.bpos - 1, cstart := s.bpos - 1 })
      else if cstr ≠ [] ∧ c ≠ '\n' ∧ c ≠ nul then
        (push s '/').map fun s => (true, { s with cstart := s.bpos })
      else some (true, s)
  else (push s c).map fun s => (true, s)

/-- The loop over the memory of the path, up to and including the zero character. -/
def parseLoop (size : ℕ) : List Char → PState → Option (Bool × PState)
  | [], _ => none
  | c :: cs, s =>
      if s.bpos < size then
        (parseStep c s).bind fun r =>
          if r.1 then
            let s := { r.2 with ipos := r.2.ipos + 1 }
            if c = nul then some (true, s) else parseLoop size cs s
          else some r
      else some (true, s)

/-- A slash at the end goes, unless it is the drive's. -/
def trimSlash (s : PState) : Option (List Char) :=
  if s.bpos > 1 then
    s.buffer[s.bpos - 1]?.bind fun last =>
      s.buffer[s.bpos - 2]?.bind fun before =>
        if last = '/' ∧ before ≠ ':' then write s.buffer (s.bpos - 1) nul else some s.buffer
  else some s.buffer

/-- **`btos_path_parse`**: what it returns, and the buffer. -/
def btosPathParse (cwd opath : List Char) (buffer : List Char) (size : ℕ) : Option (Bool × List Char) :=
  let buffer := replicate size nul ++ buffer.drop size
  (parseLoop size (pathMemory cwd opath) ⟨buffer, 0, 0, 0, false⟩).bind fun r =>
    if r.1 then (trimSlash r.2).map fun b => (true, b) else some (false, r.2.buffer)

/-! ### Strings in an array -/

theorem cString_eq_self (h : nul ∉ l) : cString l = l := by
  rw [cString, takeWhile_eq_self_iff]
  intro c hc
  simp only [decide_eq_true_eq]
  rintro rfl
  exact h hc

theorem cString_pad (h : nul ∉ l) (size : ℕ) : cString (pad nul size l) = l := by
  have hl := cString_eq_self h
  rw [cString, takeWhile_eq_self_iff] at hl
  rw [cString, pad, takeWhile_append_of_pos hl]
  simp

theorem strncpy_replicate (h : l.length ≤ btMaxPath) :
    strncpy (replicate btMaxPath nul) 0 l btMaxPath = pad nul btMaxPath l := by
  simp [strncpy, pad, take_of_length_le h]

theorem strncpy_take (h : n ≤ l.length) :
    strncpy (replicate btMaxPath nul) 0 l n = pad nul btMaxPath (l.take n) := by
  rw [strncpy, pad, take_zero, nil_append, drop_replicate, Nat.zero_add,
    Nat.sub_eq_zero_of_le h, replicate_zero, append_nil, length_take, Nat.min_eq_left h]

theorem appendTo_pad (hnul : nul ∉ l) (h : l.length + src.length ≤ btMaxPath) :
    appendTo (pad nul btMaxPath l) src = pad nul btMaxPath (l ++ src) := by
  have hend : l.length + (btMaxPath - l.length) = btMaxPath := by omega
  have hnone : (pad nul btMaxPath l).drop btMaxPath = [] := by
    apply drop_eq_nil_of_le
    rw [length_pad (by omega)]
  have hsrc : src.take (btMaxPath - l.length) = src := take_of_length_le (by omega)
  rw [appendTo, cString_pad hnul, strncpy, hend, hnone, hsrc]
  simp [pad, Nat.sub_sub]

/-! ### The writes -/

/-- Memory that is not the function's: what is found at an index outside of the buffer, and what stands behind the
array of the path. -/
structure Outside where
  buffer : ℕ → Char
  path : List Char

inductive Outcome where
  /-- A write outside of the arrays. -/
  | wrote
  /-- A read behind the end of the memory. -/
  | died
  | returned (result : Bool) (buffer : List Char)
  deriving DecidableEq, Repr

/-- **What is demanded**: no write outside, and a string in the buffer if the result is `true`. -/
def Outcome.Safe : Outcome → Prop
  | .wrote => False
  | .died => True
  | .returned result buffer => result = true → nul ∈ buffer

/-! ### The path -/

/-- `strncpy(&path[strlen(path)], src, BT_MAX_PATH-strlen(path))`.  If the string goes on behind the array, the difference
is a very large number, and so much is written there. -/
def appendWrites (o : Outside) (path src : List Char) : Option (List Char) :=
  let len := (cString (path ++ o.path)).length
  if len ≤ btMaxPath then some (strncpy path len src (btMaxPath - len)) else none

def pathWrites (o : Outside) (cwd opath : List Char) : Option (List Char) :=
  let path := replicate btMaxPath nul
  if btosPathIsAbsolute opath then some (strncpy path 0 opath btMaxPath)
  else if opath.head? = some '/' then
    let cwd := cwd.take btMaxPath
    (appendWrites o (strncpy path 0 cwd (btosGetDriveEnd cwd)) [':']).bind fun path => appendWrites o path opath
  else
    (appendWrites o (strncpy path 0 cwd btMaxPath) ['/']).bind fun path => appendWrites o path opath

/-! ### The loop -/

/-- The current segment, as it is copied to `cstr`.  One that fills the array is not ended there; what follows makes it
longer, and so it is none of those it is compared with. -/
def copiedSegment (s : PState) : Option (List Char) :=
  if s.cstart < s.bpos then
    if s.bpos - s.cstart ≤ btMaxSegLen then
      some (cString ((s.buffer.drop s.cstart).take (s.bpos - s.cstart)))
    else none
  else some []

/-- `..`. -/
def dotDotWrites (o : Outside) (s : PState) : Option PState :=
  (write s.buffer (s.bpos - 1) nul).bind fun b =>
    (write b (s.bpos - 2) nul).bind fun b =>
      let bpos := s.bpos - 2
      let stay : PState := { s with buffer := b, bpos := bpos, cstart := bpos }
      if twoBefore bpos = 0 ∨ b[twoBefore bpos]?.getD (o.buffer (twoBefore bpos)) = ':' then some stay
      -- `--bpos` in front of the buffer
      else if bpos = 0 then none
      else
        (write b (bpos - 1) nul).bind fun b =>
          (eraseBack nul '/' (bpos - 1) b).bind fun r =>
            (write r.1 r.2 '/').map fun b => { s with buffer := b, bpos := r.2 + 1, cstart := r.2 + 1 }

def separatorWrites (o : Outside) (c : Char) (s : PState) : Option (Bool × PState) :=
  (copiedSegment s).bind fun cstr =>
    if cstr = ['.', '.'] then (dotDotWrites o s).map fun s => (true, s)
    else if cstr = ['.'] then
      (write s.buffer (s.bpos - 1) nul).map fun b =>
        (true, { s with buffer := b, bpos := s.bpos - 1, cstart := s.bpos - 1 })
    else if cstr ≠ [] ∧ c ≠ '\n' ∧ c ≠ nul then
      (push s '/').map fun s => (true, { s with cstart := s.bpos })
    else some (true, s)

/-- **One character.**  `none` is a write outside; `false` comes with a path that is refused. -/
def parseStepWrites (o : Outside) (c : Char) (s : PState) : Option (Bool × PState) :=
  if c = ':' then
    if !s.hasDrive && s.ipos ≠ 0 then
      ((push s ':').bind fun s => push s '/').map fun s =>
        (true, { s with cstart := s.bpos, hasDrive := true })
    else some (false, s)
  else if c = '/' ∨ c = '\n' ∨ c = nul then separatorWrites o c s
  else (push s c).map fun s => (true, s)

def finish (s : PState) : Outcome :=
  match trimSlash s with
  | none => .wrote
  | some b => .returned true b

/-- The loop, over the memory of the path and what is behind it. -/
def loopWrites (o : Outside) (size : ℕ) : List Char → PState → Outcome
  | [], s => if s.bpos < size then .died else finish s
  | c :: cs, s =>
      if s.bpos < size then
        match parseStepWrites o c s with
        | none => .wrote
        | some (false, s) => .returned false s.buffer
        | some (true, s) =>
            let s := { s with ipos := s.ipos + 1 }
            if c = nul then finish s else loopWrites o size cs s
      else finish s

/-- **`btos_path_parse`**, for a buffer of `size` characters. -/
def btosPathParseWrites (o : Outside) (cwd opath : List Char) (size : ℕ) : Outcome :=
  match pathWrites o cwd opath with
  | none => .wrote
  | some path => loopWrites o size (path ++ o.path) ⟨replicate size nul, 0, 0, 0, false⟩

/-! ### The memory of the path -/

theorem appendWrites_pad (o : Outside) (src : List Char) (hnul : nul ∉ l) (hlen : l.length < btMaxPath) :
    appendWrites o (pad nul btMaxPath l) src = some (appendTo (pad nul btMaxPath l) src) := by
  have hstring : cString (pad nul btMaxPath l ++ o.path) = l := by
    obtain ⟨n, hn⟩ : ∃ n, btMaxPath - l.length = n + 1 := ⟨btMaxPath - l.length - 1, by omega⟩
    have hl := cString_eq_self hnul
    rw [cString, takeWhile_eq_self_iff] at hl
    rw [pad, hn, append_assoc, cString, takeWhile_append_of_pos hl]
    simp
  simp only [appendWrites, hstring, appendTo, cString_pad hnul]
  rw [if_pos hlen.le]

theorem appendWrites_full (src : List Char) (hnul : nul ∉ l) (hlen : l.length = btMaxPath) (hx : x ≠ nul)
    (ho : o.path = [x]) : appendWrites o l src = none := by
  have hstring : cString (l ++ o.path) = l ++ [x] := by
    rw [ho]
    apply cString_eq_self
    simp [hnul, Ne.symm hx]
  simp only [appendWrites, hstring]
  rw [if_neg (by rw [length_append, hlen]; exact Nat.not_succ_le_self _)]

/-- The path and the directory in front of it leave place for the end of the directory. -/
def PathFits (cwd opath : List Char) : Prop :=
  btosPathIsAbsolute opath = true ∨ opath.head? = some '/' ∨ cwd.length + 1 < btMaxPath

theorem strncpy_driveEnd (cwd : List Char) (hcwd : cwd.length < btMaxPath) :
    ∃ l, strncpy (replicate btMaxPath nul) 0 cwd (btosGetDriveEnd cwd) = pad nul btMaxPath l ∧
      l.length + 1 < btMaxPath ∧ l <+: cwd := by
  have hend : btosGetDriveEnd cwd < cwd.length ∨ btosGetDriveEnd cwd = 0 := by
    rw [btosGetDriveEnd]
    cases hfind : cwd.findIdx? (fun c => c = ':') with
    | none => exact .inr rfl
    | some i => exact .inl (findIdx?_eq_some_iff_getElem.mp hfind).1
  have hle : btosGetDriveEnd cwd ≤ cwd.length := by omega
  have hbound : btosGetDriveEnd cwd + 1 < btMaxPath := by
    rcases hend with h | h
    · omega
    · rw [h]
      decide
  refine ⟨cwd.take (btosGetDriveEnd cwd), strncpy_take hle, ?_, take_prefix _ _⟩
  rw [length_take, Nat.min_eq_left hle]
  exact hbound

/-- **The path that is parsed** does not depend on what is outside. -/
theorem pathWrites_eq (o : Outside) (hnul : nul ∉ cwd) (hcwd : cwd.length < btMaxPath)
    (hfits : PathFits cwd opath) : pathWrites o cwd opath = some (pathMemory cwd opath) := by
  rw [pathWrites, pathMemory]
  by_cases habs : btosPathIsAbsolute opath = true
  · rw [if_pos habs, if_pos habs]
  · rw [if_neg habs, if_neg habs]
    by_cases hslash : opath.head? = some '/'
    · rw [if_pos hslash, if_pos hslash, take_of_length_le hcwd.le]
      obtain ⟨l, hl, hlen, hpre⟩ := strncpy_driveEnd cwd hcwd
      have hlnul : nul ∉ l := fun h => hnul (hpre.subset h)
      have hcolon : nul ∉ l ++ [':'] := by
        simp only [mem_append, mem_singleton, not_or]
        exact ⟨hlnul, by decide⟩
      simp only [hl, appendWrites_pad o [':'] hlnul (Nat.lt_of_succ_lt hlen), bind_some]
      rw [@appendTo_pad _ [':'] hlnul hlen.le, appendWrites_pad o opath hcolon (by rw [length_append]; exact hlen)]
    · have hlen : cwd.length + 1 < btMaxPath := (hfits.resolve_left habs).resolve_left hslash
      have hend : nul ∉ cwd ++ ['/'] := by
        simp only [mem_append, mem_singleton, not_or]
        exact ⟨hnul, by decide⟩
      rw [if_neg hslash, if_neg hslash]
      simp only [strncpy_replicate hcwd.le, appendWrites_pad o ['/'] hnul hcwd, bind_some]
      rw [@appendTo_pad _ ['/'] hnul hlen.le, appendWrites_pad o opath hend (by rw [length_append]; exact hlen)]

theorem pathWrites_full {cwd opath : List Char} (hnul : nul ∉ cwd) (hcwd : cwd.length < btMaxPath)
    (hfits : ¬ PathFits cwd opath) {x : Char} (hx : x ≠ nul) (ho : o.path = [x]) : pathWrites o cwd opath = none := by
  simp only [PathFits, not_or] at hfits
  obtain ⟨habs, hslash, hlen⟩ := hfits
  have hfull : (cwd ++ ['/']).length = btMaxPath := by
    rw [length_append, length_singleton]
    omega
  have hend : nul ∉ cwd ++ ['/'] := by
    simp only [mem_append, mem_singleton, not_or]
    exact ⟨hnul, by decide⟩
  rw [pathWrites, if_neg habs, if_neg hslash]
  simp only [strncpy_replicate hcwd.le, appendWrites_pad o ['/'] hnul hcwd, bind_some]
  rw [@appendTo_pad _ ['/'] hnul (by rw [← length_append, hfull]), pad, hfull, Nat.sub_self, replicate_zero, append_nil]
  exact appendWrites_full opath hend hfull hx ho

end Btos.User.Newlib
