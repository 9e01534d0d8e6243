import Btos.Kernel.Processes.Info
import Btos.User.Btoslib.Csv
import Mathlib.Tactic.IntervalCases

/-!
# The kernel's information files as tables

`ENV` and `PROCS`, as the kernel writes them, read by `parsecsv`.

* `EnvReads`, `ProcsReads` — **one row for each record, with its fields** under the names of the header;
* `env_iff`, `procs_iff`, `info_tables_iff` — **that is so exactly if** no text in a record has quotes, backslashes,
  or blanks at its ends.
-/

namespace Btos.User.Btoslib.Csv

open Kernel.Processes List ProcessManager
open Lib.Trim

/-! ### Lines -/

theorem getlines_line (h : '\n' ∉ l) (rest : List Char) :
    getlines (l ++ '\n' :: rest) = l :: getlines rest := by
  induction l with
  | nil => simp [getlines]
  | cons c cs ih =>
    rw [mem_cons, not_or] at h
    rw [cons_append, getlines, if_neg (Ne.symm h.1), ih h.2]

theorem getlines_last (h : '\n' ∉ l) (hne : l ≠ []) : getlines l = [l] := by
  induction l with
  | nil => exact absurd rfl hne
  | cons c cs ih =>
    rw [mem_cons, not_or] at h
    rw [getlines, if_neg (Ne.symm h.1)]
    cases cs with
    | nil => rfl
    | cons d cs => rw [ih h.2 (by simp)]

section Records

variable {α : Type*} {line : α → List Char}

theorem getlines_flatMap (as : List α) (h : ∀ a ∈ as, '\n' ∉ line a) :
    getlines (as.flatMap fun a => line a ++ ['\n']) = as.map line := by
  induction as with
  | nil => rfl
  | cons a as ih =>
    rw [forall_mem_cons] at h
    have hsplit : ((a :: as).flatMap fun a => line a ++ ['\n']) =
        line a ++ '\n' :: as.flatMap fun a => line a ++ ['\n'] := by
      simp
    rw [hsplit, getlines_line h.1, ih h.2, map_cons]

/-- **Without the last line end** the lines are the same. -/
theorem getlines_dropLast (as : List α) (h : ∀ a ∈ as, '\n' ∉ line a) (hne : ∀ a ∈ as, line a ≠ []) :
    getlines (as.flatMap fun a => line a ++ ['\n']).dropLast = as.map line := by
  induction as with
  | nil => rfl
  | cons a as ih =>
    rw [forall_mem_cons] at h hne
    have hsplit : ((a :: as).flatMap fun a => line a ++ ['\n']) =
        line a ++ '\n' :: as.flatMap fun a => line a ++ ['\n'] := by
      simp
    rw [hsplit]
    cases as with
    | nil =>
      have hdrop : (line a ++ '\n' :: ([] : List α).flatMap fun a => line a ++ ['\n']).dropLast = line a :=
        dropLast_concat
      rw [hdrop, getlines_last h.1 hne.1]
      rfl
    | cons b as =>
      have hdrop : (line a ++ '\n' :: (b :: as).flatMap fun a => line a ++ ['\n']).dropLast =
          line a ++ '\n' :: ((b :: as).flatMap fun a => line a ++ ['\n']).dropLast := by
        rw [dropLast_append_of_ne_nil (by simp), dropLast_cons_of_ne_nil (by simp)]
      rw [hdrop, getlines_line h.1, ih h.2 hne.2]
      rfl

end Records

/-! ### Rows -/

theorem makeRow_eq (h : headers.Nodup) : makeRow headers fields = headers.zip fields := by
  suffices hfold : ∀ (row : TableRow) (hs fs : List (List Char)), hs.Nodup → (∀ e ∈ row, e.1 ∉ hs) →
      (hs.zip fs).foldl (fun row e => TableRow.insert row e.1 e.2) row = row ++ hs.zip fs by
    have hrow := hfold [] headers fields h (by simp)
    simpa [makeRow] using hrow
  intro row hs
  induction hs generalizing row with
  | nil => simp
  | cons x hs ih =>
    intro fs hnodup hrow
    cases fs with
    | nil => simp
    | cons y fs =>
      rw [nodup_cons] at hnodup
      have hnew : row.any (fun e => e.1 = x) = false := by
        simp only [any_eq_false, decide_eq_true_eq]
        intro e he hx
        exact hrow e he (by simp [hx])
      have hinsert : TableRow.insert row x y = row ++ [(x, y)] := by
        rw [TableRow.insert, if_neg (by simp [hnew])]
      rw [zip_cons_cons, foldl_cons, hinsert, ih _ _ hnodup.2]
      · simp
      · intro e he
        rcases mem_append.mp he with he | he
        · exact fun hmem => hrow e he (mem_cons_of_mem _ hmem)
        · rw [mem_singleton.mp he]
          exact hnodup.1

/-- **A row tells its fields.** -/
theorem makeRow_injective (h : headers.Nodup) (hf : f.length = headers.length)
    (hg : g.length = headers.length) (heq : makeRow headers f = makeRow headers g) : f = g := by
  rw [makeRow_eq h, makeRow_eq h] at heq
  have hmap := congrArg (List.map Prod.snd) heq
  rwa [map_snd_zip hf.le, map_snd_zip hg.le] at hmap

/-- **The rows are those of the records** exactly if every line is read as it should be. -/
theorem rows_iff {headers : List (List Char)} (h : headers.Nodup) {fields values : α → List (List Char)}
    (hvalues : ∀ a, (values a).length = headers.length) (as : List α) :
    (as.filterMap fun a => if (fields a).length ≠ headers.length then none else some (makeRow headers (fields a))) =
        as.map (fun a => makeRow headers (values a)) ↔ ∀ a ∈ as, fields a = values a := by
  induction as with
  | nil => simp
  | cons a as ih =>
    rw [forall_mem_cons, filterMap_cons]
    by_cases hlen : (fields a).length = headers.length
    · simp only [hlen, ne_eq, not_true_eq_false, ite_false, map_cons, List.cons.injEq] at ih ⊢
      rw [ih]
      refine and_congr ⟨makeRow_injective h hlen (hvalues a), fun heq => by rw [heq]⟩ Iff.rfl
    · -- a line that is left out leaves too few rows
      simp only [hlen, ne_eq, not_false_eq_true, ite_true]
      refine iff_of_false (fun heq => ?_) (fun hall => hlen (by rw [hall.1, hvalues a]))
      have hle := length_filterMap_le (fun a =>
        if ¬ (fields a).length = headers.length then none else some (makeRow headers (fields a))) as
      rw [heq, length_map, length_cons] at hle
      omega

/-! ### Numbers -/

/-- The digits, and what stands for a digit that is too large. -/
def digitChars : List Char := "0123456789abcdef*".toList

theorem digitChar_mem (n : ℕ) : Nat.digitChar n ∈ digitChars := by
  rcases Nat.lt_or_ge n 16 with h | h
  · interval_cases n <;> decide
  · have hlarge : Nat.digitChar n = '*' := Nat.digitChar_eq_star.mpr h
    rw [hlarge]
    decide

/-- **Digits have no meaning of their own** in a line. -/
theorem digitChar_plain (n : ℕ) :
    (Nat.digitChar n ≠ '"' ∧ Nat.digitChar n ≠ '\\' ∧ Nat.digitChar n ≠ ',' ∧ Nat.digitChar n ≠ ' ') ∧
      Nat.digitChar n ≠ '\n' := by
  have hall : (digitChars.all fun c =>
      decide ((c ≠ '"' ∧ c ≠ '\\' ∧ c ≠ ',' ∧ c ≠ ' ') ∧ c ≠ '\n')) = true := by decide +kernel
  exact of_decide_eq_true (all_eq_true.mp hall _ (digitChar_mem n))

theorem mem_toDigits (hb : 1 < b) (n : ℕ) : ∀ c ∈ Nat.toDigits b n, ∃ d, c = Nat.digitChar d := by
  induction n using Nat.strong_induction_on with
  | _ n ih =>
    intro c hc
    rw [Nat.toDigits_eq_if hb] at hc
    split at hc
    · exact ⟨n, mem_singleton.mp hc⟩
    · rcases mem_append.mp hc with hc | hc
      · exact ih (n / b) (Nat.div_lt_self (by omega) hb) c hc
      · exact ⟨n % b, mem_singleton.mp hc⟩

theorem isNumber_toDigits (hb : 1 < b) (n : ℕ) : IsNumber (Nat.toDigits b n) where
  ne_nil := Nat.toDigits_ne_nil
  plain c hc := by
    obtain ⟨d, rfl⟩ := mem_toDigits hb n c hc
    exact (digitChar_plain d).1

theorem newline_notMem_toDigits (hb : 1 < b) (n : ℕ) : '\n' ∉ Nat.toDigits b n := by
  intro hmem
  obtain ⟨d, hd⟩ := mem_toDigits hb n _ hmem
  exact (digitChar_plain d).2 hd.symm

/-! ### Tables -/

def tableOf {α : Type*} (headers : List (List Char)) (values : α → List (List Char)) (records : List α) : Table :=
  ⟨headers, records.map fun a => makeRow headers (values a)⟩

/-- The names of the columns of `ENV`. -/
def envHeaders : List (List Char) := ["name".toList, "value".toList, "flags".toList]

def envFields (e : Text × EnvironmentVariable) : List (List Char) :=
  [e.1, e.2.value, Nat.toDigits 16 e.2.flags.toNat]

/-- **The table of `ENV`** has a row for every variable that is shown. -/
def EnvReads (s : ProcessManager) : Prop :=
  parsecsv s.envInfoFS = some (tableOf envHeaders envFields s.envEntries)

instance (s : ProcessManager) : Decidable (EnvReads s) :=
  inferInstanceAs (Decidable (parsecsv s.envInfoFS = some (tableOf envHeaders envFields s.envEntries)))

/-- The names of the columns of `PROCS`. -/
def procHeaders : List (List Char) :=
  ["PID".toList, "path".toList, "memory".toList, "parent".toList, "stage".toList]

def procFields (kmem : ℕ) (p : ProcInfo) : List (List Char) :=
  [Nat.toDigits 10 p.pid, p.path, Nat.toDigits 10 (p.shownMemory kmem), Nat.toDigits 10 p.parent,
    Nat.toDigits 10 p.stage]

/-- **The table of `PROCS`** has a row for every process. -/
def ProcsReads (kmem : ℕ) (procs : List ProcInfo) : Prop :=
  (procsInfoFS kmem procs).bind parsecsv = some (tableOf procHeaders (procFields kmem) procs)

theorem parsecsv_lines
    (hlines : getlines file = header :: lines) (hhash : header.head? = some '#') (hlen : 2 ≤ header.length)
    (hheaders : splitcsv (header.drop 2) = headers) : parsecsv file = some ⟨headers, lines.filterMap fun line =>
      if (splitcsv line).length ≠ headers.length then none else some (makeRow headers (splitcsv line))⟩ := by
  have hlong : ¬ header.length < 2 := by omega
  simp only [parsecsv, hlines, hhash, ne_eq, not_true_eq_false, ite_false, hlong, hheaders]

/-- **Such a file is read as it should be** exactly if its cells are. -/
theorem parsecsv_iff {file header : List Char} {headers : List (List Char)} {cells : α → List Cell}
    {last : α → List Char} {records : List α}
    (hlines : getlines file = header :: records.map fun a => lineText [] (cells a ++ [.number (last a)]))
    (hhash : header.head? = some '#') (hlen : 2 ≤ header.length) (hheaders : splitcsv (header.drop 2) = headers)
    (hnodup : headers.Nodup) (hcells : ∀ a, (cells a).length + 1 = headers.length)
    (hwell : ∀ a, ∀ c ∈ cells a, c.WellFormed) (hlast : ∀ a, IsNumber (last a)) :
    parsecsv file = some (tableOf headers (fun a => (cells a ++ [Cell.number (last a)]).map Cell.value) records) ↔
      ∀ a ∈ records, ∀ c ∈ cells a, c.Ok := by
  rw [parsecsv_lines hlines hhash hlen hheaders, tableOf, Option.some.injEq, Table.mk.injEq, filterMap_map]
  simp only [true_and]
  exact (rows_iff hnodup (by simpa using hcells) records).trans (forall₂_congr fun a _ => splitcsv_iff (hwell a) (hlast a))

/-! ### The two files -/

def envCells (e : Text × EnvironmentVariable) : List Cell := [.text e.1, .text e.2.value]

/-- The line of a variable without its line end. -/
def envBody (e : Text × EnvironmentVariable) : List Char :=
  lineText [] (envCells e ++ [.number (Nat.toDigits 16 e.2.flags.toNat)])

theorem envLine_eq (e : Text × EnvironmentVariable) : envLine e = envBody e ++ ['\n'] := by
  simp [envLine, envBody, envCells, lineText, Cell.written]

theorem newline_notMem_envBody (hname : '\n' ∉ e.1) (hvalue : '\n' ∉ e.2.value) : '\n' ∉ envBody e := by
  have hflags := @newline_notMem_toDigits 16 (by decide) e.2.flags.toNat
  simp [envBody, envCells, lineText, Cell.written, hname, hvalue, hflags]

theorem envInfoFS_eq (s : ProcessManager) : s.envInfoFS =
    "# name, value, flags".toList ++ ('\n' :: s.envEntries.flatMap fun e => envBody e ++ ['\n']) := by
  have hheader : "# name, value, flags\n".toList = "# name, value, flags".toList ++ ['\n'] := by simp
  have hlines : envLine = fun e => envBody e ++ ['\n'] := funext envLine_eq
  calc s.envInfoFS = "# name, value, flags\n".toList ++ s.envEntries.flatMap envLine := rfl
    _ = _ := by rw [hlines, hheader, append_assoc, singleton_append]

/-- **`ENV`.** -/
theorem env_iff (s : ProcessManager) (hlines : ∀ e ∈ s.envEntries, '\n' ∉ e.1 ∧ '\n' ∉ e.2.value) :
    EnvReads s ↔ ∀ e ∈ s.envEntries, Clean e.1 ∧ Clean e.2.value := by
  have hget : getlines s.envInfoFS = "# name, value, flags".toList :: s.envEntries.map envBody := by
    rw [envInfoFS_eq, getlines_line (by simp), getlines_flatMap]
    intro e he
    exact newline_notMem_envBody (hlines e he).1 (hlines e he).2
  have hreads := @parsecsv_iff _ _ _ envHeaders envCells _ _ hget rfl (by decide +kernel) (by decide +kernel)
    (by decide +kernel) (fun _ => rfl) (by simp [envCells, Cell.WellFormed]) fun _ => isNumber_toDigits (by decide) _
  refine hreads.trans (forall₂_congr fun e _ => ?_)
  simp [envCells, Cell.Ok]

def procCells (kmem : ℕ) (p : ProcInfo) : List Cell :=
  [.number (Nat.toDigits 10 p.pid), .text p.path, .number (Nat.toDigits 10 (p.shownMemory kmem)),
    .number (Nat.toDigits 10 p.parent)]

/-- The line of a process without its line end. -/
def procBody (kmem : ℕ) (p : ProcInfo) : List Char :=
  lineText [] (procCells kmem p ++ [.number (Nat.toDigits 10 p.stage)])

theorem procLine_eq (kmem : ℕ) (p : ProcInfo) : procLine kmem p = procBody kmem p ++ ['\n'] := by
  simp [procLine, procBody, procCells, lineText, Cell.written]

theorem newline_notMem_procBody (kmem : ℕ) (hpath : '\n' ∉ p.path) : '\n' ∉ procBody kmem p := by
  have hdigits := @newline_notMem_toDigits 10 (by decide)
  simp [procBody, procCells, lineText, Cell.written, hpath, hdigits]

theorem procBody_ne_nil (kmem : ℕ) (p : ProcInfo) : procBody kmem p ≠ [] := by
  simp [procBody, procCells, lineText, Cell.written]

/-- The header of `PROCS` without its line end. -/
def procsHeaderBody : List Char := "# PID, path, memory, parent, stage".toList

theorem procsText_eq (kmem : ℕ) (procs : List ProcInfo) :
    procsText kmem procs = (procsHeaderBody :: procs.map (procBody kmem)).flatMap fun l => id l ++ ['\n'] := by
  have hlines : procLine kmem = fun p => procBody kmem p ++ ['\n'] := funext (procLine_eq kmem)
  rw [procsText, hlines, flatMap_cons, flatMap_map]
  rfl

/-- **The lines of the file** are all there, even when the last line end is not. -/
theorem getlines_procs (kmem : ℕ) (hlines : ∀ p ∈ procs, '\n' ∉ p.path) :
    ∃ file, procsInfoFS kmem procs = some file ∧
      getlines file = procsHeaderBody :: procs.map (procBody kmem) := by
  have hline : ∀ l ∈ procsHeaderBody :: procs.map (procBody kmem), '\n' ∉ id l ∧ id l ≠ [] := by
    simp only [forall_mem_cons, forall_mem_map]
    refine ⟨by decide +kernel, fun p hp => ⟨newline_notMem_procBody kmem (hlines p hp), procBody_ne_nil kmem p⟩⟩
  rcases procsInfoFS_eq kmem procs with h | h
  · refine ⟨_, h, ?_⟩
    rw [procsText_eq, getlines_flatMap _ fun l hl => (hline l hl).1, map_id]
  · refine ⟨_, h, ?_⟩
    rw [procsText_eq, getlines_dropLast _ (fun l hl => (hline l hl).1) fun l hl => (hline l hl).2, map_id]

/-- **`PROCS`.** -/
theorem procs_iff (kmem : ℕ) (hlines : ∀ p ∈ procs, '\n' ∉ p.path) :
    ProcsReads kmem procs ↔ ∀ p ∈ procs, Clean p.path := by
  obtain ⟨file, hfile, hget⟩ := getlines_procs kmem hlines
  have hreads := @parsecsv_iff _ _ _ procHeaders (procCells kmem) _ _ hget rfl (by decide +kernel)
    (by decide +kernel) (by decide +kernel) (fun _ => rfl)
    (by simp [procCells, Cell.WellFormed, isNumber_toDigits]) fun _ => isNumber_toDigits (by decide) _
  rw [ProcsReads, hfile]
  refine hreads.trans (forall₂_congr fun p _ => ?_)
  simp [procCells, Cell.Ok]

/-- **Both files are read back as one row for each record** exactly if the names, the values and the paths have no
quotes, no backslashes and no blanks at their ends. -/
theorem info_tables_iff (s : ProcessManager) (kmem : ℕ) (procs : List ProcInfo)
    (henv : ∀ e ∈ s.envEntries, '\n' ∉ e.1 ∧ '\n' ∉ e.2.value) (hprocs : ∀ p ∈ procs, '\n' ∉ p.path) :
    (EnvReads s ∧ ProcsReads kmem procs) ↔
      (∀ e ∈ s.envEntries, Clean e.1 ∧ Clean e.2.value) ∧ ∀ p ∈ procs, Clean p.path :=
  and_congr (env_iff s henv) (procs_iff kmem hprocs)

def shellWith (value : Text) : ProcessManager where
  processes := [createKernelProcess,
    { createKernelProcess with pid := 1, environment := Util.Map.empty.set ['E'] ⟨value, 0⟩ }]
  pidCounter := 1
  currentProcess := 1
  cleanUps := []
  ended := []

def shellInfo : ProcInfo := ⟨1, "hdd:/cmd.elx".toList, 4096, 0, 0⟩

theorem info_tables_iff_shell : EnvReads (shellWith ['a', ',', 'b']) ∧ ProcsReads 0 [shellInfo] :=
  (info_tables_iff (shellWith ['a', ',', 'b']) 0 [shellInfo] (by decide +kernel) (by decide +kernel)).mpr
    (by decide +kernel)

/-- **A value that begins with a blank** is read without it. -/
theorem info_tables_fail :
    (∀ e ∈ (shellWith [' ', 'a']).envEntries, '\n' ∉ e.1 ∧ '\n' ∉ e.2.value) ∧ ¬ EnvReads (shellWith [' ', 'a']) ∧
      parsecsv (shellWith [' ', 'a']).envInfoFS = some (tableOf envHeaders id [[['E'], ['a'], ['0']]]) := by
  decide +kernel

end Btos.User.Btoslib.Csv
