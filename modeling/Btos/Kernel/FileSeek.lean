import Btos.Lib.Word
import Btos.User.Newlib.Lseek

/-!
# Positions in open files

`FSHelpers::SeekPosition` (`include/module/utils/fshelpers.hpp`) is the law that the file handles of the kernel follow.
`Seek` has an offset of 64 bits and hands it on as a `size_t`, which cuts it to 32.

* **`handleSeek_exact_iff`** — a seek is exact if the offset fits, or if what is left of it goes over the end as well.
  The file handle of the initial file system (`kernel/initfs.cpp`) stays within its file in any case.
* **`seeks_agree_iff`** — the two handles that do not use `SeekPosition`, `vterm::seek` (`modules/terminal/vterm.cpp`)
  and `ISOFileHandle::Seek` (`modules/fs/iso9660/iso9660.cpp`), agree with it on seeks from the start and forwards, if
  the sector that `l9660_seek` reads on the way is on the device.

A panic is `none`.  What is read and the buffers of sectors are left out.
-/

namespace Btos.Kernel.FileSeek

open Lib.Word User.Newlib List

/-- **`Seek` of a file handle** at `cpos`: the conversion of the offset to a `size_t`, and `SeekPosition`. -/
def handleSeek (off : ℕ) (flags : SeekFlags) (cpos size : ℕ) : ℤ := seekPosition (off % 2 ^ 32) flags cpos size

/-- **Where a seek has to go**: the place that the flags say, kept in the file. -/
def seekTarget (off : ℕ) (flags : SeekFlags) (cpos size : ℕ) : ℤ :=
  max 0 (min size (match flags with
    | ⟨false, false⟩ => off
    | ⟨true, false⟩ => cpos + off
    | ⟨false, true⟩ => size - off
    | ⟨true, true⟩ => cpos - off))

/-- **How far a seek can go** before it meets an end of the file. -/
def room (flags : SeekFlags) (cpos size : ℕ) : ℕ :=
  match flags with
  | ⟨true, false⟩ => size - cpos
  | ⟨true, true⟩ => cpos
  | _ => size

/-! ### The initial file system -/

/-- **`initfs_file`**, whose size is a `size_t`. -/
structure InitFSFile where
  data : List UInt8
  size_lt : data.length < 2 ^ 32

structure InitFSFileHandle where
  file : InitFSFile
  pos : ℕ

namespace InitFSFileHandle

/-- **`Read`**: the bytes, and the handle afterwards.  The sum in the test can wrap; the loop stops at the end of the
file by itself. -/
def read (h : InitFSFileHandle) (bytes : ℕ) : List UInt8 × InitFSFileHandle :=
  let size := h.file.data.length
  if h.pos > size then ([], h)
  else
    let bytes := if add32 h.pos bytes > size then size - h.pos else bytes
    let buffer := (h.file.data.drop h.pos).take bytes
    (buffer, { h with pos := add32 h.pos buffer.length })

/-- **`Seek`**: `pos` is a `size_t`. -/
def seek (h : InitFSFileHandle) (p : ℕ) (flags : SeekFlags) : InitFSFileHandle :=
  { h with pos := (handleSeek p flags h.pos h.file.data.length).toNat % 2 ^ 32 }

inductive Call
  | seek (p : ℕ) (flags : SeekFlags)
  | read (bytes : ℕ)

def step (h : InitFSFileHandle) : Call → InitFSFileHandle
  | .seek p flags => h.seek p flags
  | .read bytes => (h.read bytes).2

/-- **The handle after a sequence of calls**, from the position 0. -/
def after (file : InitFSFile) (calls : List Call) : InitFSFileHandle := calls.foldl step ⟨file, 0⟩

/-- **`Read` returns the bytes up to the end of the request or of the file**, whichever is first. -/
theorem read_eq (h : InitFSFileHandle) (hpos : h.pos ≤ h.file.data.length) (n : ℕ) :
    h.read n = ((h.file.data.drop h.pos).take n, { h with pos := min (h.pos + n) h.file.data.length }) := by
  have hlt := h.file.size_lt
  have hbytes : (h.file.data.drop h.pos).take
      (if add32 h.pos n > h.file.data.length then h.file.data.length - h.pos else n) =
      (h.file.data.drop h.pos).take n := by
    split
    · rename_i hgt
      have hn : h.file.data.length - h.pos ≤ n := by
        unfold add32 at hgt
        omega
      rw [take_of_length_le (by simp), take_of_length_le (by simpa using hn)]
    · rfl
  rw [read, if_neg (Nat.not_lt.mpr hpos)]
  simp only [hbytes, length_take, length_drop]
  rw [add32_of_lt (by omega)]
  congr 2
  omega

theorem pos_step_le (h : InitFSFileHandle) (hpos : h.pos ≤ h.file.data.length) (c : Call) :
    (h.step c).pos ≤ (h.step c).file.data.length := by
  cases c with
  | seek p flags =>
    obtain ⟨relative, backwards⟩ := flags
    cases relative <;> cases backwards <;> simp only [step, seek, handleSeek, seekPosition] <;> split <;> omega
  | read n =>
    rw [step, read_eq h hpos]
    exact Nat.min_le_right ..

theorem pos_after_le (file : InitFSFile) (calls : List Call) :
    (after file calls).pos ≤ (after file calls).file.data.length := by
  have hrun : ∀ h : InitFSFileHandle, h.pos ≤ h.file.data.length →
      (calls.foldl step h).pos ≤ (calls.foldl step h).file.data.length := by
    induction calls with
    | nil => exact fun h hpos => hpos
    | cons c calls ih => exact fun h hpos => ih (h.step c) (pos_step_le h hpos c)
  exact hrun ⟨file, 0⟩ (Nat.zero_le _)

end InitFSFileHandle

/-- **A seek is exact exactly if its offset has 32 bits, or the rest of it goes to the end of the file as well.**  The
handle of a file of the initial file system stays within the file, and reads what is there. -/
theorem handleSeek_exact_iff (size cpos off : ℕ) (flags : SeekFlags) (hsize : size < 2 ^ 64) (hcpos : cpos ≤ size)
    (hoff : off < 2 ^ 64) (file : InitFSFile) (calls : List InitFSFileHandle.Call) (n : ℕ) :
    let h := InitFSFileHandle.after file calls
    (handleSeek off flags cpos size = seekTarget off flags cpos size ↔
      off < 2 ^ 32 ∨ room flags cpos size ≤ off % 2 ^ 32) ∧ h.pos ≤ h.file.data.length ∧
        h.read n = ((h.file.data.drop h.pos).take n, { h with pos := min (h.pos + n) h.file.data.length }) := by
  intro h
  have hpos := InitFSFileHandle.pos_after_le file calls
  refine ⟨?_, hpos, h.read_eq hpos n⟩
  obtain ⟨relative, backwards⟩ := flags
  cases relative <;> cases backwards <;> simp only [handleSeek, seekPosition, seekTarget, room] <;> split <;> omega

/-- Ten bytes on, in a file of a hundred. -/
theorem handleSeek_exact_forward : handleSeek 10 ⟨true, false⟩ 5 100 = seekTarget 10 ⟨true, false⟩ 5 100 :=
  (handleSeek_exact_iff 100 5 10 ⟨true, false⟩ (by decide) (by decide) (by decide) ⟨[], by decide⟩ [] 0).1.mpr
    (.inl (by decide))

/-- Four gigabytes and ten bytes back from the end of a file of a hundred bytes. -/
theorem handleSeek_cut : handleSeek (2 ^ 32 + 10) ⟨false, true⟩ 0 100 = 90 ∧
    seekTarget (2 ^ 32 + 10) ⟨false, true⟩ 0 100 = 0 := by
  decide

/-! ### Handles with a law of their own -/

/-- **`vterm::seek` in a graphics mode**, where a unit is a byte.  The test for both flags comes behind the one for
`FS_Relative`, so its branch is never taken. -/
def vtermSeek (pos : ℕ) (flags : SeekFlags) (bufpos bufsize : ℕ) : ℕ :=
  let bufpos :=
    if flags.relative then add32 bufpos pos
    else if flags.backwards then sub32 bufsize pos
    else if flags = ⟨true, true⟩ then sub32 bufpos pos
    else pos
  if bufpos > bufsize then bufsize else bufpos

/-- An open file of a CD-ROM, and the size of the device. -/
structure IsoFile where
  position : ℕ
  length : ℕ
  firstSector : ℕ
  device : ℕ

/-- **`read_sector`**: `none` is the panic if the device cannot be set to the sector, or has nothing to read there. -/
def readSector (device sector : ℕ) : Option Unit :=
  let readaddr := mul32 sector 2048
  if handleSeek readaddr ⟨false, false⟩ 0 device ≠ readaddr ∨ device - readaddr = 0 then none else some ()

/-- **`l9660_seek`** from the start (`SEEK_SET`) or from the position, by an `int32_t`.  Another sector is read if the
position is in the middle of it, before the position is kept in the file. -/
def l9660Seek (f : IsoFile) (cur : Bool) (offset : ℕ) : Option ℕ :=
  let position := if cur then add32 f.position offset else offset
  (if position / 2048 ≠ f.position / 2048 ∧ position % 2048 ≠ 0 then
    readSector f.device (add32 f.firstSector (position / 2048)) else some ()).map fun _ =>
      if position > f.length then f.length else position

/-- **`ISOFileHandle::Seek`.** A seek backwards has a negative offset, also from the end, which becomes the start. -/
def isoSeek (f : IsoFile) (pos : ℕ) (flags : SeekFlags) : Option ℕ :=
  l9660Seek f flags.relative (if flags.backwards then sub32 0 pos else pos % 2 ^ 32)

/-- Where both agree with `SeekPosition`. -/
def SeeksAgree (off : ℕ) (flags : SeekFlags) (cpos size : ℕ) : Prop :=
  match flags with
  | ⟨false, false⟩ => True
  | ⟨true, false⟩ => cpos ≤ size
  | ⟨false, true⟩ => size = 0
  | ⟨true, true⟩ => off = 0 ∧ cpos ≤ size ∨ size = cpos - off

/-- The place that the flags name, in 32 bits; the end of the file is not one. -/
def seekPlace (off : ℕ) (flags : SeekFlags) (cpos : ℕ) : ℕ :=
  ((if flags.relative then cpos else 0) + if flags.backwards then 2 ^ 32 - off else off) % 2 ^ 32

/-- **The place is in the sector of the file's position, at the beginning of a sector, or in a sector that the device
has.** -/
def SectorThere (f : IsoFile) (off : ℕ) (flags : SeekFlags) : Prop :=
  let place := seekPlace off flags f.position
  place / 2048 = f.position / 2048 ∨ place % 2048 = 0 ∨ (f.firstSector + place / 2048) * 2048 % 2 ^ 32 < f.device

theorem readSector_eq_some_iff {u : Unit} : readSector device sector = some u ↔ sector * 2048 % 2 ^ 32 < device := by
  have haddr : ((mul32 sector 2048 : ℕ) : ℤ) % 2 ^ 32 = mul32 sector 2048 := by
    unfold mul32
    omega
  have hmul : sector * 2048 % 2 ^ 32 = mul32 sector 2048 := rfl
  simp only [readSector, handleSeek, seekPosition, haddr, hmul]
  split_ifs <;> simp <;> omega

theorem isoSeek_eq_some_iff {f : IsoFile} {off n : ℕ} {flags : SeekFlags} (hoff : off < 2 ^ 31) :
    isoSeek f off flags = some n ↔ SectorThere f off flags ∧
      n = if seekPlace off flags f.position > f.length then f.length else seekPlace off flags f.position := by
  have hplace : (if flags.relative then add32 f.position (if flags.backwards then sub32 0 off else off % 2 ^ 32)
      else if flags.backwards then sub32 0 off else off % 2 ^ 32) = seekPlace off flags f.position := by
    unfold seekPlace add32 sub32
    split_ifs <;> omega
  have hsector : add32 f.firstSector (seekPlace off flags f.position / 2048) * 2048 % 2 ^ 32 =
      (f.firstSector + seekPlace off flags f.position / 2048) * 2048 % 2 ^ 32 := by
    unfold add32
    omega
  simp only [isoSeek, l9660Seek, hplace, Option.map_eq_some_iff, SectorThere, eq_comm (a := n)]
  rw [← hsector]
  by_cases hread : seekPlace off flags f.position / 2048 ≠ f.position / 2048 ∧
      seekPlace off flags f.position % 2048 ≠ 0
  · simp [readSector_eq_some_iff, hread]
  · have hstay : seekPlace off flags f.position / 2048 = f.position / 2048 ∨
        seekPlace off flags f.position % 2048 = 0 := by omega
    simp [if_neg hread, ← or_assoc, hstay]

/-- **`vterm::seek` and `ISOFileHandle::Seek` go where `SeekPosition` goes** exactly in these cases, and if the sector is
there. -/
theorem seeks_agree_iff (off : ℕ) (flags : SeekFlags) (f : IsoFile) (hoff : off < 2 ^ 31)
    (hcpos : f.position < 2 ^ 31) (hsize : f.length < 2 ^ 31) :
    (∃ n, isoSeek f off flags = some n ∧ vtermSeek off flags f.position f.length = n ∧
        handleSeek off flags f.position f.length = n) ↔
      SeeksAgree off flags f.position f.length ∧ SectorThere f off flags := by
  simp only [isoSeek_eq_some_iff hoff, and_assoc, exists_and_left, exists_eq_left]
  rw [and_comm, and_congr_left_iff]
  intro _
  obtain ⟨relative, backwards⟩ := flags
  cases relative <;> cases backwards <;>
    simp [handleSeek, seekPosition, SeeksAgree, vtermSeek, seekPlace, add32, sub32] <;>
    split_ifs <;> omega

/-- Ten bytes on, in a file of a hundred on a disc of ten megabytes. -/
theorem seeks_agree_forward : ∃ n, isoSeek ⟨5, 100, 200, 10485760⟩ 10 ⟨true, false⟩ = some n ∧
    vtermSeek 10 ⟨true, false⟩ 5 100 = n ∧ handleSeek 10 ⟨true, false⟩ 5 100 = n :=
  (seeks_agree_iff 10 ⟨true, false⟩ ⟨5, 100, 200, 10485760⟩ (by decide) (by decide) (by decide)).mpr
    ⟨show 5 ≤ 100 by decide, .inl (by decide)⟩

/-- Ten bytes back from the middle, the terminal goes forwards; ten bytes back from the end, the file of a CD-ROM stays
at its end; and far behind the end of that file, the kernel panics. -/
theorem seeks_differ : vtermSeek 10 ⟨true, true⟩ 50 100 = 60 ∧ handleSeek 10 ⟨true, true⟩ 50 100 = 40 ∧
    isoSeek ⟨50, 100, 200, 10485760⟩ 10 ⟨false, true⟩ = some 100 ∧ handleSeek 10 ⟨false, true⟩ 50 100 = 90 ∧
    isoSeek ⟨0, 100, 200, 10485760⟩ 0x10000001 ⟨false, false⟩ = none := by
  decide

end Btos.Kernel.FileSeek
