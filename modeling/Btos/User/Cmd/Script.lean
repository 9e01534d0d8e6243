import Btos.User.Cmd.Arrays
import Btos.Lib.Simulation

/-!
# Scripts

`ScriptScope::Parse` and `ScriptScope::Run` of `user/libs/cmd/scripting.cpp`.  A script is a list of lines, each a list of
tokens.  `Run` goes from line to line and knows nothing of blocks: a condition that is not met installs a predicate in
`resume`, and lines are skipped until the predicate is true; the beginnings of the loops that are being run are on a
stack.

* `parseLines` — **`Parse`**: comments, empty lines, labels and the bodies of functions are not among the lines to run;
* `Resume`, `Machine`, `process`, `step` — **`Run`**, one line at a time;
* `Script` — **a program of well-nested blocks**: commands, `if` with and without `else`, and loops, with its lines;
* `Config`, `Config.step` — **its meaning**: each step runs one command or evaluates one condition.  A loop whose
  condition is met is its body and then the loop again.

What follows from a step of `Run` and how places in the text stand for programs is in
`Btos.User.Cmd.ScriptRun`.
-/

namespace Btos.User.Cmd.Scripting

open User.Cmd.Arrays (trim)
open Lib.Simulation List Bool Option

abbrev Text := List Char

abbrev Line := List Text

def toLower (t : Text) : Text := t.map Char.toLower

/-! ### Words -/

def labelWord : Text := ['l', 'a', 'b', 'e', 'l']

def functionWord : Text := ['f', 'u', 'n', 'c', 't', 'i', 'o', 'n']

def loopWord : Text := ['l', 'o', 'o', 'p']

def endWord : Text := ['e', 'n', 'd']

def gotoWord : Text := ['g', 'o', 't', 'o']

def ifWord : Text := ['i', 'f']

def elseWord : Text := ['e', 'l', 's', 'e']

def commentWord : Text := ['#']

def isTruthy (q : Text) : Bool :=
  let ql := trim (toLower q)
  if ql = [] || ql = ['f', 'a', 'l', 's', 'e'] || ql = ['n', 'o'] || ql = ['0'] then false else true

def isStart (block : Text) (line : Line) : Bool :=
  match line with
  | [] => false
  | first :: _ => toLower first = block

def isEnd (block : Text) (line : Line) : Bool :=
  match line with
  | [first, second] => toLower first = endWord && toLower second = block
  | _ => false

def isExact (block : Text) (line : Line) : Bool :=
  match line with
  | [first] => toLower first = block
  | _ => false

/-! ### Parsing -/

/-- The members of `ScriptScope` that `Run` uses. -/
structure Scope where
  lines : List Line
  labels : List (Text × ℕ)
  deriving DecidableEq, Repr

/-- The scope while it is filled, and the name of the function that is being read. -/
structure ParseState where
  scope : Scope
  pendingFn : Option Text
  deriving DecidableEq, Repr

/-- The name `ParseFunctionDef` gives. -/
def functionName (line : Line) : Text :=
  match line with
  | _ :: name :: _ => toLower name
  | _ => []

/-- `labels.insert`: a label that is there stays as it is. -/
def insertLabel (labels : List (Text × ℕ)) (label : Text) (i : ℕ) : List (Text × ℕ) :=
  if labels.any fun e => e.1 = label then labels else labels ++ [(label, i)]

def parseOutside (scope : Scope) (p : Line) : ParseState :=
  if isStart functionWord p then
    if functionName p ≠ [] then ⟨scope, some (functionName p)⟩ else ⟨scope, none⟩
  else if isStart labelWord p then
    match p with
    | _ :: label :: _ => ⟨{ scope with labels := insertLabel scope.labels (toLower label) scope.lines.length }, none⟩
    | _ => ⟨scope, none⟩
  else ⟨{ scope with lines := scope.lines ++ [p] }, none⟩

def isBlank (p : Line) : Bool :=
  match p with
  | [] => true
  | first :: _ => commentWord.isPrefixOf first

def parseLine (s : ParseState) (p : Line) : ParseState :=
  if isBlank p then s
  else match s.pendingFn with
    | none => parseOutside s.scope p
    | some _ => if isEnd functionWord p then { s with pendingFn := none } else s

/-- `Parse`. -/
def parseLines (clines : List Line) : Scope := (clines.foldl parseLine ⟨⟨[], []⟩, none⟩).scope

/-! ### Running -/

inductive Kind where
  | command | condition | label
  deriving DecidableEq, Repr

/-- A line is run, or the label of a `goto` is put together. -/
structure Event where
  kind : Kind
  line : Line
  deriving DecidableEq, Repr

/-- What the last event gives, from all events up to it. -/
abbrev Results := List Event → Text

inductive Resume where
  | afterIf | afterElse | afterLoop
  deriving DecidableEq, Repr

/-- `++resumeCounter` at the beginning of a block, `--resumeCounter` at its end. -/
def countBlock (block : Text) (counter : ℤ) (l : Line) : ℤ :=
  if isStart block l then counter + 1 else if isEnd block l then counter - 1 else counter

/-- What a predicate gives: if it is true, the new `resumeCounter`, and if it has set `ignoreLine`. -/
structure Tested where
  resumes : Bool
  counter : ℤ
  ignores : Bool
  deriving DecidableEq, Repr

def Resume.test (r : Resume) (counter : ℤ) (l : Line) : Tested :=
  match r with
  | .afterIf =>
      if counter = 1 && isExact elseWord l then ⟨true, counter, true⟩
      else ⟨countBlock ifWord counter l = 0, countBlock ifWord counter l, false⟩
  | .afterElse => ⟨countBlock ifWord counter l = 0, countBlock ifWord counter l, false⟩
  | .afterLoop =>
      ⟨countBlock loopWord counter l = 0, countBlock loopWord counter l, countBlock loopWord counter l = 0⟩

/-- The variables of `Run`, and what has been run. -/
structure Machine where
  i : ℕ
  loopStack : List ℕ
  resume : Option Resume
  resumeCounter : ℤ
  ignoreLine : Bool
  trace : List Event
  output : Text
  deriving DecidableEq, Repr

def Machine.start : Machine := ⟨0, [], none, 0, false, [], []⟩

section Run

variable (results : Results) (scope : Scope)

def Machine.execute (m : Machine) (e : Event) : Machine := { m with trace := m.trace ++ [e] }

/-- The end of the turn for a line that is not empty. -/
def Machine.goOn (m : Machine) (i : ℕ) : Machine := { m with i := i, ignoreLine := false }

def Machine.skip (m : Machine) (r : Resume) : Machine := { m with resume := some r, resumeCounter := 1 }

/-- Where a `goto` leads. -/
def gotoTarget (label : Text) (i : ℕ) : ℕ :=
  match scope.labels.find? fun e => e.1 = label with
  | none => i + 1
  | some e => if e.2 < scope.lines.length then e.2 else i + 1

/-- `goto`, with what stands behind it. -/
def processGoto (rest : Line) (m : Machine) : Machine :=
  match rest with
  | [label] =>
      let m := m.execute ⟨.label, [toLower label]⟩
      m.goOn (gotoTarget scope (results m.trace) m.i)
  | _ => m.goOn (m.i + 1)

/-- Back to the loop on the top of the stack: `i` is one less, and the loop over the lines adds one.  `none` is the top of
an empty stack. -/
def Machine.repeatLoop (m : Machine) : Option Machine :=
  match m.loopStack with
  | [] => none
  | top :: stack => some ({ m with loopStack := stack }.goOn top)

def process (line : Line) (m : Machine) : Option Machine :=
  match line with
  | [] => some { m with i := m.i + 1 }
  | first :: rest =>
      if toLower first = gotoWord then some (processGoto results scope rest m)
      else if toLower first = ifWord then
        let m := m.execute ⟨.condition, rest⟩
        if isTruthy (results m.trace) then some (m.goOn (m.i + 1)) else some ((m.skip .afterIf).goOn (m.i + 1))
      else if toLower first = elseWord then
        if m.ignoreLine then some (m.goOn (m.i + 1)) else some ((m.skip .afterElse).goOn (m.i + 1))
      else if toLower first = loopWord then
        let m := m.execute ⟨.condition, rest⟩
        if isTruthy (results m.trace) then some ({ m with loopStack := m.i :: m.loopStack }.goOn (m.i + 1))
        else some ((m.skip .afterLoop).goOn (m.i + 1))
      else if toLower first = endWord then
        if isEnd functionWord line then some (m.goOn scope.lines.length)
        else if isEnd loopWord line && !m.ignoreLine then m.repeatLoop
        else some (m.goOn (m.i + 1))
      else
        let m := m.execute ⟨.command, line⟩
        some ({ m with output := m.output ++ results m.trace ++ ['\n'] }.goOn (m.i + 1))

/-- One turn of `Run`. -/
def step (m : Machine) : Option Machine :=
  match scope.lines[m.i]? with
  | none => none
  | some line =>
      match m.resume with
      | none => process results scope line m
      | some r =>
          let tested := r.test m.resumeCounter line
          let m := { m with resumeCounter := tested.counter, ignoreLine := m.ignoreLine || tested.ignores }
          if tested.resumes then process results scope line { m with resume := none }
          else some { m with i := m.i + 1 }

end Run

/-! ### Programs -/

inductive Script where
  | done
  | command (line : Line) (rest : Script)
  | ifThen (head : Line) (yes : Script) (close : Line) (rest : Script)
  | ifElse (head : Line) (yes : Script) (middle : Line) (no : Script) (close : Line) (rest : Script)
  | loop (head : Line) (body : Script) (close : Line) (rest : Script)
  deriving DecidableEq, Repr

namespace Script

def lines : Script → List Line
  | .done => []
  | .command line rest => line :: rest.lines
  | .ifThen head yes close rest => head :: (yes.lines ++ close :: rest.lines)
  | .ifElse head yes middle no close rest => head :: (yes.lines ++ middle :: (no.lines ++ close :: rest.lines))
  | .loop head body close rest => head :: (body.lines ++ close :: rest.lines)

def append : Script → Script → Script
  | .done, k => k
  | .command line rest, k => .command line (rest.append k)
  | .ifThen head yes close rest, k => .ifThen head yes close (rest.append k)
  | .ifElse head yes middle no close rest, k => .ifElse head yes middle no close (rest.append k)
  | .loop head body close rest, k => .loop head body close (rest.append k)

end Script

def firstWord (line : Line) : Option Text := line.head?.map toLower

def keywords : List Text := [labelWord, functionWord, loopWord, endWord, gotoWord, ifWord, elseWord]

def isCommand (line : Line) : Bool :=
  !isBlank line && match firstWord line with
    | none => false
    | some word => !keywords.contains word

/-- The blocks are written with their words. -/
def Script.WellFormed : Script → Prop
  | .done => True
  | .command line rest => isCommand line = true ∧ rest.WellFormed
  | .ifThen head yes close rest =>
      isStart ifWord head = true ∧ yes.WellFormed ∧ isEnd ifWord close = true ∧ rest.WellFormed
  | .ifElse head yes middle no close rest =>
      isStart ifWord head = true ∧ yes.WellFormed ∧ isExact elseWord middle = true ∧ no.WellFormed ∧
        isEnd ifWord close = true ∧ rest.WellFormed
  | .loop head body close rest =>
      isStart loopWord head = true ∧ body.WellFormed ∧ isEnd loopWord close = true ∧ rest.WellFormed

/-! ### Their meaning -/

/-- What is left to run, and what has been run. -/
structure Config where
  script : Script
  trace : List Event
  output : Text
  deriving DecidableEq, Repr

section Meaning

variable (results : Results)

/-- A condition is evaluated, and the program goes on with one of the two. -/
def Config.branch (c : Config) (condition : Line) (yes no : Script) : Config :=
  let trace := c.trace ++ [⟨.condition, condition⟩]
  ⟨if isTruthy (results trace) then yes else no, trace, c.output⟩

def Config.step (c : Config) : Option Config :=
  match c.script with
  | .done => none
  | .command line rest =>
      let trace := c.trace ++ [⟨.command, line⟩]
      some ⟨rest, trace, c.output ++ results trace ++ ['\n']⟩
  | .ifThen head yes _ rest => some (c.branch results head.tail (yes.append rest) rest)
  | .ifElse head yes _ no _ rest => some (c.branch results head.tail (yes.append rest) (no.append rest))
  | .loop head body close rest =>
      some (c.branch results head.tail (body.append (.loop head body close rest)) rest)

/-- The program after `n` steps. -/
def structuredRun (p : Script) (n : ℕ) : Option Config := iterate (Config.step results) n ⟨p, [], []⟩

/-- `Run` after `k` turns. -/
def machineRun (clines : List Line) (k : ℕ) : Option Machine :=
  iterate (Scripting.step results (parseLines clines)) k .start

end Meaning

/-! ### Words of lines -/

section

variable {line : Line} {block : Text}

theorem isStart_iff : isStart block line = true ↔ firstWord line = some block := by
  cases line with
  | nil | cons first rest => simp [isStart, firstWord]

theorem isEnd_iff : isEnd block line = true ↔ ∃ first second,
    line = [first, second] ∧ toLower first = endWord ∧ toLower second = block := by
  rcases line with _ | ⟨first, _ | ⟨second, _ | ⟨third, rest⟩⟩⟩ <;> simp [isEnd]

theorem firstWord_of_isEnd (h : isEnd block line = true) : firstWord line = some endWord := by
  obtain ⟨first, second, rfl, hfirst, -⟩ := isEnd_iff.mp h
  rw [firstWord, head?_cons, map_some, hfirst]

theorem firstWord_of_isExact (h : isExact block line = true) : firstWord line = some block := by
  rcases line with _ | ⟨first, _ | ⟨second, rest⟩⟩
  · cases h
  · rw [firstWord, head?_cons, map_some, of_decide_eq_true h]
  · cases h

theorem isExact_of_firstWord (h : firstWord line = some word) (hne : word ≠ block) :
    isExact block line = false := by
  rw [eq_false_iff]
  intro hexact
  rw [firstWord_of_isExact hexact, some.injEq] at h
  exact hne h.symm

theorem isEnd_of_firstWord (h : firstWord line = some word) (hne : word ≠ endWord) :
    isEnd block line = false := by
  rw [eq_false_iff]
  intro hend
  rw [firstWord_of_isEnd hend, some.injEq] at h
  exact hne h.symm

theorem isEnd_ne (h : isEnd block line = true) (hne : block ≠ block') : isEnd block' line = false := by
  rw [eq_false_iff]
  intro h'
  obtain ⟨first, second, rfl, -, hsecond⟩ := isEnd_iff.mp h
  obtain ⟨first', second', hline, -, hsecond'⟩ := isEnd_iff.mp h'
  cases hline
  exact hne (hsecond.symm.trans hsecond')

end

/-! ### Skipping -/

def Resume.block : Resume → Text
  | .afterIf => ifWord
  | .afterElse => ifWord
  | .afterLoop => loopWord

/-- A line that is run when the skipping ends there, and has no effect of its own. -/
def Passes (stop : Line) (ignores : Bool) : Prop :=
  isEnd ifWord stop = true ∨ (isExact elseWord stop = true ∨ isEnd loopWord stop = true) ∧ ignores = true

/-- **The lines that are skipped**, and the one where the skipping ends. -/
def SkipsTo (r : Resume) : ℤ → List Line → Line → Prop
  | counter, [], stop => (r.test counter stop).resumes = true ∧ Passes stop (r.test counter stop).ignores
  | counter, l :: ls, stop =>
      (r.test counter l).resumes = false ∧ (r.test counter l).ignores = false ∧
        SkipsTo r (r.test counter l).counter ls stop

section Skip

variable {r : Resume} {counter : ℤ} {l stop : Line} {ls : List Line}

theorem test_of_pos (hpos : 1 ≤ countBlock r.block counter l)
    (helse : r = .afterIf → counter = 1 → isExact elseWord l = false) :
    r.test counter l = ⟨false, countBlock r.block counter l, false⟩ := by
  have hne : countBlock r.block counter l ≠ 0 := by omega
  cases r with
  | afterIf =>
    have hno : (decide (counter = 1) && isExact elseWord l) = false := by
      by_cases hone : counter = 1
      · rw [helse rfl hone, Bool.and_false]
      · rw [decide_eq_false hone, Bool.false_and]
    rw [Resume.block] at hne
    simp [Resume.test, hno, hne, Resume.block]
  | afterElse | afterLoop =>
    rw [Resume.block] at hne
    simp [Resume.test, hne, Resume.block]

theorem SkipsTo.cons (hpos : 1 ≤ countBlock r.block counter l)
    (helse : r = .afterIf → counter = 1 → isExact elseWord l = false)
    (h : SkipsTo r (countBlock r.block counter l) ls stop) : SkipsTo r counter (l :: ls) stop := by
  rw [SkipsTo, test_of_pos hpos helse]
  exact ⟨rfl, rfl, h⟩

theorem countBlock_other (hstart : isStart block l = false) (hend : isEnd block l = false) :
    countBlock block counter l = counter := by
  simp [countBlock, hstart, hend]

theorem countBlock_start (hstart : isStart block l = true) : countBlock block counter l = counter + 1 := by
  simp [countBlock, hstart]

theorem isStart_of_firstWord (h : firstWord l = some word) (hne : word ≠ block) : isStart block l = false := by
  rw [eq_false_iff, ne_eq, isStart_iff, h, some.injEq]
  exact hne

theorem countBlock_end (hne : endWord ≠ block) (hend : isEnd block l = true) :
    countBlock block counter l = counter - 1 := by
  simp [countBlock, isStart_of_firstWord (firstWord_of_isEnd hend) hne, hend]

theorem Resume.block_eq (r : Resume) : r.block = ifWord ∨ r.block = loopWord := by
  cases r with
  | afterIf | afterElse => exact .inl rfl
  | afterLoop => exact .inr rfl

theorem Resume.block_ne_end (r : Resume) : endWord ≠ r.block := by
  cases r with
  | afterIf | afterElse | afterLoop => decide

theorem word_of_isCommand (h : isCommand l = true) : ∃ word, firstWord l = some word ∧ word ∉ keywords := by
  simp only [isCommand, and_eq_true] at h
  cases hword : firstWord l with
  | none =>
    rw [hword] at h
    exact Bool.noConfusion h.2
  | some word =>
    rw [hword] at h
    refine ⟨word, rfl, ?_⟩
    simpa using h.2

theorem SkipsTo.command (hc : 1 ≤ counter) (hl : isCommand l = true) (h : SkipsTo r counter ls stop) :
    SkipsTo r counter (l :: ls) stop := by
  obtain ⟨word, hword, hkey⟩ := word_of_isCommand hl
  have hne : ∀ w ∈ keywords, word ≠ w := fun w hw heq => hkey (heq ▸ hw)
  have hblock : word ≠ r.block := by
    rcases r.block_eq with hb | hb
    · exact hb ▸ hne ifWord (by decide)
    · exact hb ▸ hne loopWord (by decide)
  have hcount : countBlock r.block counter l = counter :=
    countBlock_other (isStart_of_firstWord hword hblock) (isEnd_of_firstWord hword (hne endWord (by decide)))
  refine .cons (hcount.symm ▸ hc) (fun _ _ => isExact_of_firstWord hword (hne elseWord (by decide))) ?_
  rw [hcount]
  exact h

def Resume.weight (r : Resume) (block : Text) : ℤ := if r.block = block then 1 else 0

theorem Resume.weight_nonneg (r : Resume) (block : Text) : 0 ≤ r.weight block := by
  rw [Resume.weight]
  split <;> decide

theorem SkipsTo.start (hc : 1 ≤ counter) (hl : isStart block l = true) (hend : block ≠ endWord)
    (helse : block ≠ elseWord) (h : SkipsTo r (counter + r.weight block) ls stop) : SkipsTo r counter (l :: ls) stop := by
  have hword : firstWord l = some block := isStart_iff.mp hl
  have hcount : countBlock r.block counter l = counter + r.weight block := by
    by_cases hb : r.block = block
    · rw [Resume.weight, if_pos hb, countBlock_start (hb ▸ hl)]
    · rw [Resume.weight, if_neg hb, Int.add_zero,
        countBlock_other (isStart_of_firstWord hword (Ne.symm hb)) (isEnd_of_firstWord hword hend)]
  have hweight := r.weight_nonneg block
  refine .cons (by omega) (fun _ _ => isExact_of_firstWord hword helse) ?_
  rw [hcount]
  exact h

theorem SkipsTo.close (hc : 1 ≤ counter) (hl : isEnd block l = true)
    (h : SkipsTo r counter ls stop) : SkipsTo r (counter + r.weight block) (l :: ls) stop := by
  have hword : firstWord l = some endWord := firstWord_of_isEnd hl
  have hcount : countBlock r.block (counter + r.weight block) l = counter := by
    by_cases hb : r.block = block
    · rw [Resume.weight, if_pos hb, countBlock_end r.block_ne_end (hb ▸ hl), Int.add_sub_cancel]
    · rw [Resume.weight, if_neg hb, Int.add_zero,
        countBlock_other (isStart_of_firstWord hword r.block_ne_end) (isEnd_ne hl (Ne.symm hb))]
  refine .cons (hcount.symm ▸ hc) (fun _ _ => isExact_of_firstWord hword (by decide)) ?_
  rw [hcount]
  exact h

/-- The `else` of a block that is skipped with its beginning. -/
theorem SkipsTo.middle (hc : 1 ≤ counter) (hl : isExact elseWord l = true)
    (h : SkipsTo r (counter + r.weight ifWord) ls stop) : SkipsTo r (counter + r.weight ifWord) (l :: ls) stop := by
  have hword : firstWord l = some elseWord := firstWord_of_isExact hl
  have hblock : elseWord ≠ r.block := by
    rcases r.block_eq with hb | hb
    · rw [hb]
      decide
    · rw [hb]
      decide
  have hcount : countBlock r.block (counter + r.weight ifWord) l = counter + r.weight ifWord :=
    countBlock_other (isStart_of_firstWord hword hblock) (isEnd_of_firstWord hword (by decide))
  have hweight := r.weight_nonneg ifWord
  refine .cons (by omega) (fun hr hone => ?_) ?_
  · -- the block has been counted, so this is not the `else` that is looked for
    rw [hr] at hone
    have htwo : counter + 1 = 1 := hone
    omega
  · rw [hcount]
    exact h

/-- **A predicate goes over a whole program.** -/
theorem skipsTo_script (q : Script) (hq : q.WellFormed) (hc : 1 ≤ counter) (h : SkipsTo r counter ls stop) :
    SkipsTo r counter (q.lines ++ ls) stop := by
  induction q generalizing counter ls with
  | done => exact h
  | command line rest ih => exact .command hc hq.1 (ih hq.2 hc h)
  | ifThen head yes close rest ihyes ihrest =>
    obtain ⟨hhead, hyes, hclose, hrest⟩ := hq
    have hweight := r.weight_nonneg ifWord
    simp only [Script.lines, cons_append, append_assoc]
    refine .start hc hhead (by decide) (by decide) (ihyes hyes (by omega) ?_)
    exact .close hc hclose (ihrest hrest hc h)
  | ifElse head yes middle no close rest ihyes ihno ihrest =>
    obtain ⟨hhead, hyes, hmiddle, hno, hclose, hrest⟩ := hq
    have hweight := r.weight_nonneg ifWord
    simp only [Script.lines, cons_append, append_assoc]
    refine .start hc hhead (by decide) (by decide) (ihyes hyes (by omega) ?_)
    refine .middle hc hmiddle (ihno hno (by omega) ?_)
    exact .close hc hclose (ihrest hrest hc h)
  | loop head body close rest ihbody ihrest =>
    obtain ⟨hhead, hbody, hclose, hrest⟩ := hq
    have hweight := r.weight_nonneg loopWord
    simp only [Script.lines, cons_append, append_assoc]
    refine .start hc hhead (by decide) (by decide) (ihbody hbody (by omega) ?_)
    exact .close hc hclose (ihrest hrest hc h)

end Skip

end Btos.User.Cmd.Scripting
