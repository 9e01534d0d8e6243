import Mathlib.Tactic.Common
import Mathlib.Algebra.Order.Ring.Int

/-!
# Seeking in a file

`_lseek` of the C library (`libc/sys/btos/syscalls.c`) turns a signed offset into an unsigned distance and
flags, which the file systems interpret with `SeekPosition` (`include/module/utils/fshelpers.hpp`).  An `off_t`
and a `size_t` have 32 bits, a `bt_filesize_t` has 64.

* `seekPosition` — **the kernel's side**: four directions, each cut off at the ends of the file;
* `lseek` — **the C library's side**.  Only `SEEK_CUR` looks at the sign of the offset;
* `SeekOk` — **the condition on a seek**, next to the handle not being a duplicate of a duplicate.
-/

namespace Btos.User.Newlib

open Option

/-! ### The kernel -/

/-- `fs_seek_flags`, as bits. -/
structure SeekFlags where
  relative : Bool
  backwards : Bool
  deriving DecidableEq, Repr

/-- **`SeekPosition`**: `size - cpos` is computed modulo `2 ^ 64`. -/
def seekPosition (pos : ℤ) (flags : SeekFlags) (cpos size : ℤ) : ℤ :=
  match flags with
  | ⟨true, false⟩ => if pos > (size - cpos) % 2 ^ 64 then size else cpos + pos
  | ⟨false, true⟩ => if pos > size then 0 else size - pos
  | ⟨true, true⟩ => if pos > cpos then 0 else cpos - pos
  | ⟨false, false⟩ => if pos > size then size else pos

structure File where
  size : ℤ
  pos : ℤ
  deriving DecidableEq, Repr

/-- `bt_fseek` of a regular file: the new position, and the file. -/
def fseek (f : File) (bytes : ℤ) (flags : SeekFlags) : ℤ × File :=
  let npos := seekPosition (bytes % 2 ^ 32) flags f.pos f.size
  (npos, { f with pos := npos })

/-! ### The C library -/

/-- The value as an `off_t`. -/
def offT (z : ℤ) : ℤ := (z + 2 ^ 31) % 2 ^ 32 - 2 ^ 31

/-- The third argument of `lseek`. -/
inductive Whence where
  | set
  | cur
  | «end»
  deriving DecidableEq, Repr

/-- A `virtual_handle`: nothing, a file of the system, a handle with functions of its own, or another name for
a handle. -/
inductive VirtualHandle where
  | null
  | os (f : File)
  | virt (lseek : ℤ → Whence → ℤ)
  | dup (parent : VirtualHandle)

/-- `btos_get_handle_virt`: the number is compared as a `size_t`. -/
def getHandleVirt (filehandles : List (Option VirtualHandle)) (fd : ℤ) : Option VirtualHandle :=
  (filehandles[(fd % 2 ^ 32).toNat]?).join

/-- The part of `_lseek` behind the test for a duplicate: the result, and the file with its new position.
There is none if a function pointer that nothing has set is called. -/
def lseekIn (ptr : ℤ) (dir : Whence) : VirtualHandle → Option (ℤ × Option File)
  | .null => some (0, none)
  | .os f =>
      let r := match dir with
        | .cur =>
            if ptr < 0 then fseek f (offT (-ptr)) ⟨true, true⟩ else fseek f ptr ⟨true, false⟩
        | .end => fseek f ptr ⟨false, true⟩
        | .set => fseek f ptr ⟨false, false⟩
      some (offT r.1, some r.2)
  | .virt g => some (g ptr dir, none)
  -- `dup` of a duplicate is a duplicate of it; its `virt.lseek` is whatever `malloc` found there
  | .dup _ => none

/-- **`_lseek`**. -/
def lseek (filehandles : List (Option VirtualHandle)) (file ptr : ℤ) (dir : Whence) :
    Option (ℤ × Option File) :=
  match getHandleVirt filehandles file with
  | none => some (-1, none)
  | some (.dup parent) => lseekIn ptr dir parent
  | some vh => lseekIn ptr dir vh

/-! ### What it is for -/

def meant (f : File) (off : ℤ) : Whence → ℤ
  | .set => off
  | .cur => f.pos + off
  | .end => f.size + off

/-- **Where it has to go**: the place that is meant, kept in the file. -/
def target (f : File) (off : ℤ) (dir : Whence) : ℤ := max 0 (min f.size (meant f off dir))

def SeekOk (f : File) (off : ℤ) : Whence → Prop
  | .set => 0 ≤ off ∨ f.size = 0
  | .cur => f.pos ≤ f.size ∨ (off < 0 ∧ f.pos + off ≤ f.size)
  | .end => off = 0 ∨ f.size = 0 ∨ (off < 0 ∧ f.size + off ≤ 0)

def VirtualHandle.file : VirtualHandle → Option File
  | .os f => some f
  | .dup parent => parent.file
  | _ => none

/-- The handle is not a duplicate of a duplicate. -/
def VirtualHandle.Direct : VirtualHandle → Prop
  | .dup (.dup _) => False
  | _ => True

/-- A file with a size and a position below `2 ^ 31`. -/
structure File.Small (f : File) : Prop where
  size_nonneg : 0 ≤ f.size
  size_lt : f.size < 2 ^ 31
  pos_nonneg : 0 ≤ f.pos
  pos_lt : f.pos < 2 ^ 31

/-- The values of an `off_t`. -/
def IsOffT (z : ℤ) : Prop := -2 ^ 31 ≤ z ∧ z < 2 ^ 31

/-! ### The result -/

theorem offT_of_isOffT (h : IsOffT z) : offT z = z := by
  simp only [IsOffT] at h
  simp only [offT]
  omega

/-- **Below zero**, an offset that is not negated is a distance of at least `2 ^ 31`. -/
theorem emod_of_neg (h : IsOffT z) (hz : z < 0) : z % 2 ^ 32 = z + 2 ^ 32 := by
  simp only [IsOffT] at h
  omega

theorem emod_of_nonneg (h : IsOffT z) (hz : 0 ≤ z) : z % 2 ^ 32 = z := by
  simp only [IsOffT] at h
  omega

/-- **The distance of a backward seek**: the least `off_t` is its own negative, and still the right distance
as a `size_t`. -/
theorem offT_neg_emod (h : IsOffT z) (hz : z < 0) : offT (-z) % 2 ^ 32 = -z := by
  simp only [IsOffT] at h
  simp only [offT]
  omega

/-- A place in a small file is an `off_t`. -/
theorem File.Small.isOffT_target (hf : f.Small) (off : ℤ) (dir : Whence) : IsOffT (target f off dir) := by
  have h2 := hf.size_lt
  simp only [IsOffT, target]
  omega

/-- Where `_lseek` goes in a file of the system. -/
def arrive (f : File) (off : ℤ) : Whence → ℤ
  | .set => seekPosition (off % 2 ^ 32) ⟨false, false⟩ f.pos f.size
  | .cur =>
      if off < 0 then seekPosition (offT (-off) % 2 ^ 32) ⟨true, true⟩ f.pos f.size
      else seekPosition (off % 2 ^ 32) ⟨true, false⟩ f.pos f.size
  | .end => seekPosition (off % 2 ^ 32) ⟨false, true⟩ f.pos f.size

theorem lseekIn_os (f : File) (off : ℤ) (dir : Whence) : lseekIn off dir (.os f) =
      some (offT (arrive f off dir), some { f with pos := arrive f off dir }) := by
  cases dir with
  | set => rfl
  | cur => by_cases h : off < 0 <;> simp [lseekIn, arrive, fseek, h]
  | «end» => rfl

/-- **Where `_lseek` goes is the target exactly under the condition**: `SEEK_SET` goes to the end of the file below
zero, `SEEK_CUR` from a position behind the end; `SEEK_END` takes the offset as a distance before the end. -/
theorem arrive_iff (hf : f.Small) (hoff : IsOffT off) (dir : Whence) :
    arrive f off dir = target f off dir ↔ SeekOk f off dir := by
  obtain ⟨hsize, hsize', hpos, hpos'⟩ := hf
  have hrange := hoff
  simp only [IsOffT] at hrange
  rcases lt_or_ge off 0 with hz | hz
  · cases dir with
    | set | «end» =>
      simp only [arrive, target, meant, SeekOk, seekPosition, emod_of_neg hoff hz]
      split <;> omega
    | cur =>
      simp only [arrive, target, meant, SeekOk, seekPosition, if_pos hz, offT_neg_emod hoff hz]
      split <;> omega
  · cases dir with
    | set | cur | «end» =>
      simp only [arrive, target, meant, SeekOk, seekPosition, if_neg (not_lt.mpr hz), emod_of_nonneg hoff hz]
      split <;> omega

theorem lseekIn_right_iff (hf : f.Small) (hoff : IsOffT off) (dir : Whence) :
    lseekIn off dir (.os f) = some (target f off dir, some { f with pos := target f off dir }) ↔
      SeekOk f off dir := by
  rw [lseekIn_os, ← arrive_iff hf hoff dir]
  constructor
  · intro h
    simp only [some.injEq, Prod.mk.injEq, File.mk.injEq, true_and] at h
    exact h.2
  · intro h
    rw [h, offT_of_isOffT (hf.isOffT_target off dir)]

/-- **A seek goes to its target and returns it exactly under the condition**, for every number of an open
regular file, every offset and every direction. -/
theorem lseek_right_iff (filehandles : List (Option VirtualHandle)) (file : ℤ) (vh : VirtualHandle) (f : File)
    (off : ℤ) (dir : Whence) (hvh : getHandleVirt filehandles file = some vh) (hfile : vh.file = some f)
    (hf : f.Small) (hoff : IsOffT off) : lseek filehandles file off dir =
        some (target f off dir, some { f with pos := target f off dir }) ↔
      vh.Direct ∧ SeekOk f off dir := by
  simp only [lseek, hvh]
  cases vh with
  | null | virt g => simp [VirtualHandle.file] at hfile
  | os g =>
    simp only [VirtualHandle.file, some.injEq] at hfile
    subst hfile
    simpa [VirtualHandle.Direct] using lseekIn_right_iff hf hoff dir
  | dup parent =>
    cases parent with
    | null | virt g => simp [VirtualHandle.file] at hfile
    | os g =>
      simp only [VirtualHandle.file, some.injEq] at hfile
      subst hfile
      simpa [VirtualHandle.Direct] using lseekIn_right_iff hf hoff dir
    | dup grandparent => simp [lseekIn, VirtualHandle.Direct]

/-- **Ten bytes on**, from the start of a file of a hundred, through a duplicate of its number. -/
theorem lseek_right_iff_forward :
    SeekOk ⟨100, 0⟩ 10 .cur ∧
      lseek [none, some (.dup (.os ⟨100, 0⟩))] 1 10 .cur = some (10, some ⟨100, 10⟩) := by
  have hok : SeekOk ⟨100, 0⟩ 10 .cur := .inl (by decide)
  have h := lseek_right_iff [none, some (.dup (.os ⟨100, 0⟩))] 1 (.dup (.os ⟨100, 0⟩)) ⟨100, 0⟩ 10 .cur
    rfl rfl ⟨by decide, by decide, by decide, by decide⟩ ⟨by decide, by decide⟩
  exact ⟨hok, h.mpr ⟨trivial, hok⟩⟩

/-- **Ten bytes before the end** of a file of a hundred, `_lseek` goes to its start. -/
theorem lseek_wrong :
    target ⟨100, 0⟩ (-10) .end = 90 ∧ lseek [some (.os ⟨100, 0⟩)] 0 (-10) .end = some (0, some ⟨100, 0⟩) := by
  constructor
  · decide
  · rfl

end Btos.User.Newlib
