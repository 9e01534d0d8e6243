import Btos.Kernel.Processes.Process
import Mathlib.Tactic.Ring

/-!
# The information file of the processes

`ProcsInfoFS` in `kernel/processes/impl/processmanager.cpp` prints a line for every process into a buffer, behind what
is there, and begins again with a buffer of twice the size when a line does not fit.

* `fillBuffer`, `procsLoop`, `procsInfoFS` — **the loop**.  A text that fills the whole buffer loses its last
  character, as no room is left for the end of the string, and is not taken for too long;
* `procsInfoFS_eq` — **the result**: all lines, or all without the line end of the last one.
-/

namespace Btos.Kernel.Processes

open List

/-- `snprintf` to a buffer: one character is for the end of the string. -/
def snprintf (size : ℕ) (text : Text) : Text × ℕ := (text.take (size - 1), text.length)

structure ProcInfo where
  pid : ℕ
  path : Text
  memory : ℕ
  parent : ℕ
  stage : ℕ
  deriving DecidableEq, Repr

def procsHeader : Text := "# PID, path, memory, parent, stage\n".toList

/-- The memory that is printed; the kernel's is known from elsewhere. -/
def ProcInfo.shownMemory (p : ProcInfo) (kmem : ℕ) : ℕ := if p.pid = 0 then kmem else p.memory

/-- `"%llu, \"%s\", %lu, %llu, %lu\n"`. -/
def procLine (kmem : ℕ) (p : ProcInfo) : Text :=
  Nat.toDigits 10 p.pid ++ ", \"".toList ++ p.path ++ "\", ".toList ++ Nat.toDigits 10 (p.shownMemory kmem) ++
    ", ".toList ++ Nat.toDigits 10 p.parent ++ ", ".toList ++ Nat.toDigits 10 p.stage ++ ['\n']

/-- The loop over the processes: `none` if the buffer is too small. -/
def fillBuffer (size kmem : ℕ) : List ProcInfo → Text → Option Text
  | [], buffer => some buffer
  | p :: ps, buffer =>
      let r := snprintf size (buffer ++ procLine kmem p)
      if r.2 > size then none else fillBuffer size kmem ps r.1

/-- The loop that makes the buffer larger, with a bound on its turns. -/
def procsLoop (kmem : ℕ) (procs : List ProcInfo) : ℕ → ℕ → Option Text
  | 0, _ => none
  | n + 1, bufferSize =>
      match fillBuffer bufferSize kmem procs (snprintf bufferSize procsHeader).1 with
      | some buffer => some buffer
      | none => procsLoop kmem procs n (bufferSize * 2)

def procsText (kmem : ℕ) (procs : List ProcInfo) : Text := procsHeader ++ procs.flatMap (procLine kmem)

/-- **`ProcsInfoFS`.**  There are not more turns than characters. -/
def procsInfoFS (kmem : ℕ) (procs : List ProcInfo) : Option Text :=
  procsLoop kmem procs ((procsText kmem procs).length + 1) 4096

/-! ### What is printed -/

theorem two_le_length_procLine (kmem : ℕ) (p : ProcInfo) : 2 ≤ (procLine kmem p).length := by
  simp [procLine]
  omega

theorem fillBuffer_cons (size kmem : ℕ) (p : ProcInfo) (ps : List ProcInfo) (buffer : Text) :
    fillBuffer size kmem (p :: ps) buffer =
      if size < (buffer ++ procLine kmem p).length then none
      else fillBuffer size kmem ps ((buffer ++ procLine kmem p).take (size - 1)) := rfl

/-- **A buffer that is large enough** holds all lines, but for the last line end if there is just no room for it. -/
theorem fillBuffer_eq (procs : List ProcInfo) (buffer : Text) (hbuffer : buffer.length < size) :
    fillBuffer size kmem procs buffer = if (buffer ++ procs.flatMap (procLine kmem)).length ≤ size then
        some ((buffer ++ procs.flatMap (procLine kmem)).take (size - 1)) else none := by
  induction procs generalizing buffer with
  | nil =>
    simp only [flatMap_nil, append_nil, fillBuffer]
    rw [if_pos (by omega), take_of_length_le (by omega)]
  | cons p ps ih =>
    have hsplit : buffer ++ (p :: ps).flatMap (procLine kmem) =
        (buffer ++ procLine kmem p) ++ ps.flatMap (procLine kmem) := by
      simp
    rw [hsplit, fillBuffer_cons]
    generalize buffer ++ procLine kmem p = b
    rcases Nat.lt_trichotomy b.length size with hfit | hfull | hlong
    · -- the line fits
      have hle : b.length ≤ size - 1 := by omega
      rw [if_neg (Nat.not_lt.mpr hfit.le), take_of_length_le hle, ih b hfit]
    · -- the line end is lost, and another line is too long
      have htake : (b.take (size - 1)).length = size - 1 := by
        rw [length_take]
        omega
      rw [if_neg (by omega), ih _ (by omega)]
      cases ps with
      | nil =>
        simp only [flatMap_nil, append_nil]
        rw [htake, if_pos (Nat.sub_le _ _), if_pos hfull.le, take_take, Nat.min_self]
      | cons p' ps =>
        have hline := two_le_length_procLine kmem p'
        rw [if_neg, if_neg]
        · rw [length_append, flatMap_cons, length_append]
          omega
        · rw [length_append, flatMap_cons, length_append]
          omega
    · rw [if_pos hlong, if_neg]
      rw [length_append]
      omega

section Loop

variable {kmem : ℕ} {procs : List ProcInfo}

theorem procsLoop_succ (hheader : procsHeader.length < size) (n : ℕ) : procsLoop kmem procs (n + 1) size =
      if (procsText kmem procs).length ≤ size then some ((procsText kmem procs).take (size - 1))
      else procsLoop kmem procs n (size * 2) := by
  have hbuffer : (snprintf size procsHeader).1 = procsHeader := take_of_length_le (by omega)
  have hfill : fillBuffer size kmem procs procsHeader =
      if (procsText kmem procs).length ≤ size then some ((procsText kmem procs).take (size - 1)) else none :=
    fillBuffer_eq procs procsHeader hheader
  rw [procsLoop, hbuffer, hfill]
  by_cases hfit : (procsText kmem procs).length ≤ size
  · rw [if_pos hfit, if_pos hfit]
  · rw [if_neg hfit, if_neg hfit]

/-- **The loop ends**, with a buffer that is large enough. -/
theorem procsLoop_eq (n : ℕ) : ∀ {size : ℕ}, procsHeader.length < size →
    (procsText kmem procs).length ≤ size * 2 ^ n → ∃ size', (procsText kmem procs).length ≤ size' ∧
      procsLoop kmem procs (n + 1) size = some ((procsText kmem procs).take (size' - 1)) := by
  induction n with
  | zero =>
    intro size hheader hlength
    have hfit : (procsText kmem procs).length ≤ size := by omega
    exact ⟨size, hfit, by rw [procsLoop_succ hheader, if_pos hfit]⟩
  | succ n ih =>
    intro size hheader hlength
    rw [procsLoop_succ hheader]
    by_cases hfit : (procsText kmem procs).length ≤ size
    · exact ⟨size, hfit, by rw [if_pos hfit]⟩
    · rw [if_neg hfit]
      apply ih (by omega)
      calc (procsText kmem procs).length ≤ size * 2 ^ (n + 1) := hlength
        _ = size * 2 * 2 ^ n := by ring

/-- **`ProcsInfoFS` gives all lines**, or all of them without the line end of the last one. -/
theorem procsInfoFS_eq (kmem : ℕ) (procs : List ProcInfo) :
    procsInfoFS kmem procs = some (procsText kmem procs) ∨
      procsInfoFS kmem procs = some (procsText kmem procs).dropLast := by
  have hheader : procsHeader.length < 4096 := by decide
  have hlength : (procsText kmem procs).length ≤ 4096 * 2 ^ (procsText kmem procs).length :=
    Nat.lt_two_pow_self.le.trans (Nat.le_mul_of_pos_left _ (by omega))
  obtain ⟨size, hle, heq⟩ := procsLoop_eq (procsText kmem procs).length hheader hlength
  rw [procsInfoFS, heq, dropLast_eq_take]
  by_cases hfull : (procsText kmem procs).length = size
  · exact .inr (by rw [hfull])
  · exact .inl (by rw [take_of_length_le (by omega)])

end Loop

end Btos.Kernel.Processes
