import Btos.User.Cmd.Script

/-!
# Running structured scripts

`ScriptScope::Run` on the text of a well-formed program, turn by turn, as a simulation in both directions, so that
loops that do not end are included.  What commands and conditions give is a parameter, the results.

* `Code`, `At` — **how a place in the text and the stack of loops stand for the rest of the program**;
* `run_structured` — **`Run` runs what the program runs**, in the same order and with the same output.
-/

namespace Btos.User.Cmd.Scripting

open Lib.Simulation Bool List

/-! ### What a line does -/

section

variable {results : Results} {scope : Scope} {line : Line} {m : Machine}

theorem eq_cons_of_firstWord (h : firstWord line = some word) :
    ∃ first rest, line = first :: rest ∧ toLower first = word := by
  cases line with
  | nil => cases h
  | cons first rest => exact ⟨first, rest, rfl, Option.some.inj h⟩

theorem process_command (h : isCommand line = true) :
    process results scope line m = some (Machine.goOn { m.execute ⟨.command, line⟩ with
      output := m.output ++ results (m.trace ++ [⟨.command, line⟩]) ++ ['\n'] } (m.i + 1)) := by
  obtain ⟨word, hword, hkey⟩ := word_of_isCommand h
  obtain ⟨first, rest, rfl, hfirst⟩ := eq_cons_of_firstWord hword
  have hne : ∀ w ∈ keywords, ¬ toLower first = w := fun w hw heq => hkey ((hfirst.symm.trans heq) ▸ hw)
  rw [process, if_neg (hne gotoWord (by decide)), if_neg (hne ifWord (by decide)), if_neg (hne elseWord (by decide)),
    if_neg (hne loopWord (by decide)), if_neg (hne endWord (by decide))]
  rfl

theorem process_if (h : isStart ifWord line = true) : process results scope line m =
      if isTruthy (results (m.trace ++ [⟨.condition, line.tail⟩])) then
        some ((m.execute ⟨.condition, line.tail⟩).goOn (m.i + 1))
      else some (((m.execute ⟨.condition, line.tail⟩).skip .afterIf).goOn (m.i + 1)) := by
  obtain ⟨first, rest, rfl, hfirst⟩ := eq_cons_of_firstWord (isStart_iff.mp h)
  rw [process, hfirst, if_neg (by decide)]
  rfl

theorem process_loop (h : isStart loopWord line = true) : process results scope line m =
      if isTruthy (results (m.trace ++ [⟨.condition, line.tail⟩])) then
        some (Machine.goOn { m.execute ⟨.condition, line.tail⟩ with loopStack := m.i :: m.loopStack } (m.i + 1))
      else some (((m.execute ⟨.condition, line.tail⟩).skip .afterLoop).goOn (m.i + 1)) := by
  obtain ⟨first, rest, rfl, hfirst⟩ := eq_cons_of_firstWord (isStart_iff.mp h)
  rw [process, hfirst, if_neg (by decide)]
  rfl

theorem process_else (h : isExact elseWord line = true) : process results scope line m =
      if m.ignoreLine then some (m.goOn (m.i + 1)) else some ((m.skip .afterElse).goOn (m.i + 1)) := by
  obtain ⟨first, rest, rfl, hfirst⟩ := eq_cons_of_firstWord (firstWord_of_isExact h)
  rw [process, hfirst, if_neg (by decide), if_neg (by decide), if_pos rfl]

theorem process_end (h : isEnd block line = true) (hblock : block ≠ functionWord) :
    process results scope line m =
      if isEnd loopWord line && !m.ignoreLine then m.repeatLoop else some (m.goOn (m.i + 1)) := by
  have hfunction : isEnd functionWord line = false := isEnd_ne h hblock
  obtain ⟨first, rest, rfl, hfirst⟩ := eq_cons_of_firstWord (firstWord_of_isEnd h)
  rw [process, hfirst, if_neg (by decide), if_neg (by decide), if_neg (by decide), if_neg (by decide), if_pos rfl,
    hfunction, if_neg Bool.false_ne_true]

theorem process_endIf (h : isEnd ifWord line = true) : process results scope line m = some (m.goOn (m.i + 1)) := by
  rw [process_end h (by decide), isEnd_ne h (by decide), Bool.false_and, if_neg Bool.false_ne_true]

theorem process_endLoop (h : isEnd loopWord line = true) (hignore : m.ignoreLine = false)
    (hstack : m.loopStack = top :: stack) :
    process results scope line m = some ({ m with loopStack := stack }.goOn top) := by
  have hrepeat : m.repeatLoop = some (Machine.goOn { m with loopStack := stack } top) := by
    rw [Machine.repeatLoop, hstack]
  rw [process_end h (by decide), if_pos (by rw [h, hignore]; rfl), hrepeat]

theorem process_passes (h : Passes line m.ignoreLine) : process results scope line m = some (m.goOn (m.i + 1)) := by
  rcases h with h | ⟨h | h, hignore⟩
  · exact process_endIf h
  · rw [process_else h, hignore, if_pos rfl]
  · rw [process_end h (by decide), hignore, Bool.not_true, Bool.and_false, if_neg Bool.false_ne_true]

end

/-! ### Places -/

/-- The lines from `i` on begin with these. -/
def Code (lines : List Line) (i : ℕ) (ls : List Line) : Prop := ∃ tail, lines.drop i = ls ++ tail

section Code

variable {lines : List Line} {i : ℕ} {l : Line} {ls ls' : List Line}

theorem Code.head (h : Code lines i (l :: ls)) : lines[i]? = some l := by
  obtain ⟨tail, htail⟩ := h
  have hget := congrArg (fun xs => xs[0]?) htail
  simpa using hget

theorem Code.left (h : Code lines i (ls ++ ls')) : Code lines i ls := by
  obtain ⟨tail, htail⟩ := h
  exact ⟨ls' ++ tail, by rw [htail, append_assoc]⟩

theorem Code.right (h : Code lines i (ls ++ ls')) : Code lines (i + ls.length) ls' := by
  obtain ⟨tail, htail⟩ := h
  refine ⟨tail, ?_⟩
  rw [← drop_drop, htail, append_assoc, drop_left]

theorem Code.tail (h : Code lines i (l :: ls)) : Code lines (i + 1) ls := @Code.right lines i [l] ls h

end Code

/-- **The rest of the program** at a place in its text, with the loops that are being run. -/
inductive At (lines : List Line) : ℕ → List ℕ → Script → Prop where
  | stop : At lines lines.length [] .done
  | block {i : ℕ} {stack : List ℕ} {k : Script} (q : Script) (hq : q.WellFormed) (hcode : Code lines i q.lines)
      (h : At lines (i + q.lines.length) stack k) : At lines i stack (q.append k)
  | endIf {i : ℕ} {stack : List ℕ} {p : Script} {close : Line} (hline : lines[i]? = some close)
      (hclose : isEnd ifWord close = true) (h : At lines (i + 1) stack p) : At lines i stack p
  | middle {i : ℕ} {stack : List ℕ} {p : Script} {middle close : Line} (no : Script)
      (hmiddle : isExact elseWord middle = true) (hno : no.WellFormed) (hclose : isEnd ifWord close = true)
      (hcode : Code lines i (middle :: (no.lines ++ [close]))) (h : At lines (i + 1 + no.lines.length + 1) stack p) :
      At lines i stack p
  | endLoop {i j : ℕ} {stack : List ℕ} {k : Script} {head close : Line} (body : Script)
      (hq : Script.WellFormed (.loop head body close .done))
      (hcode : Code lines j (Script.lines (.loop head body close .done))) (hi : i = j + 1 + body.lines.length)
      (h : At lines (i + 1) stack k) : At lines i (j :: stack) (.loop head body close k)

/-- **Where the machine is** while the rest of the program is `p`. -/
inductive Place (lines : List Line) (m : Machine) (p : Script) : Prop where
  | here (hresume : m.resume = none) (hignore : m.ignoreLine = false) (h : At lines m.i m.loopStack p)
  | skipping (r : Resume) (skipped : List Line) (stop : Line) (hresume : m.resume = some r)
      (hignore : m.ignoreLine = false) (hcode : Code lines m.i (skipped ++ [stop]))
      (hskip : SkipsTo r m.resumeCounter skipped stop) (h : At lines (m.i + skipped.length + 1) m.loopStack p)

/-- The line at `i` is one that runs something. -/
def runsAt (lines : List Line) (i : ℕ) : Bool :=
  match lines[i]? with
  | none => false
  | some line => firstWord line ≠ some endWord && firstWord line ≠ some elseWord

/-- The lines up to the next one that runs something are not more than these. -/
def distance (lines : List Line) (m : Machine) : ℕ :=
  if m.resume = none ∧ runsAt lines m.i = true then 0 else lines.length + 1 - m.i

theorem distance_le (lines : List Line) (m : Machine) : distance lines m ≤ lines.length + 1 - m.i := by
  rw [distance]
  split
  · exact Nat.zero_le _
  · exact Nat.le_refl _

section Turns

variable {results : Results} {scope : Scope} {m : Machine} {p : Script}

inductive Turn (results : Results) (scope : Scope) (m : Machine) (p : Script) : Prop where
  | ends (hs : step results scope m = none) (hi : m.i = scope.lines.length) (hp : p = .done)
  | silent (m' : Machine) (hs : step results scope m = some m') (ht : m'.trace = m.trace) (ho : m'.output = m.output)
      (hplace : Place scope.lines m' p) (hlt : distance scope.lines m' < distance scope.lines m)
  | runs (m' : Machine) (c : Config) (hs : step results scope m = some m')
      (hc : Config.step results ⟨p, m.trace, m.output⟩ = some c) (ht : m'.trace = c.trace) (ho : m'.output = c.output)
      (hplace : Place scope.lines m' c.script)

variable {line head : Line}

theorem step_of_line (hline : scope.lines[m.i]? = some line) (hresume : m.resume = none) :
    step results scope m = process results scope line m := by
  simp only [step, hline, hresume]

section Silent

variable (hline : scope.lines[m.i]? = some line)
  (hno : m.resume ≠ none ∨ firstWord line = some endWord ∨ firstWord line = some elseWord)
include hline hno

theorem distance_far : distance scope.lines m = scope.lines.length + 1 - m.i ∧ m.i < scope.lines.length := by
  refine ⟨?_, (List.getElem?_eq_some_iff.mp hline).1⟩
  rw [distance, if_neg]
  rintro ⟨hresume, hruns⟩
  rw [runsAt, hline] at hruns
  rcases hno with h | h | h
  · exact h hresume
  · simp [h] at hruns
  · simp [h] at hruns

theorem distance_next (hi : m'.i = m.i + 1) : distance scope.lines m' < distance scope.lines m := by
  obtain ⟨hfar, hlt⟩ := distance_far hline hno
  have hle := distance_le scope.lines m'
  omega

end Silent

/-- **A turn that skips a line, or ends the skipping.** -/
theorem step_skipping (hresume : m.resume = some r)
    (hignore : m.ignoreLine = false) (hcode : Code scope.lines m.i (skipped ++ [stop]))
    (hskip : SkipsTo r m.resumeCounter skipped stop)
    (h : At scope.lines (m.i + skipped.length + 1) m.loopStack p) : Turn results scope m p := by
  cases skipped with
  | nil =>
    have hline := hcode.head
    obtain ⟨hresumes, hpasses⟩ := hskip
    refine .silent (Machine.goOn { m with resume := none, resumeCounter := (r.test m.resumeCounter stop).counter }
      (m.i + 1)) ?_ rfl rfl (.here rfl rfl h) (distance_next hline (.inl (by simp [hresume])) rfl)
    simp only [step, hline, hresume, hresumes, hignore, if_true, Bool.false_or]
    exact process_passes hpasses
  | cons l ls =>
    have hline := hcode.head
    obtain ⟨hresumes, hignores, hrest⟩ := hskip
    refine .silent { m with i := m.i + 1, resumeCounter := (r.test m.resumeCounter l).counter } ?_ rfl rfl
      (.skipping r ls stop hresume hignore hcode.tail hrest ?_) (distance_next hline (.inl (by simp [hresume])) rfl)
    · simp only [step, hline, hresume, hresumes, hignores, hignore, Bool.false_eq_true, if_false, Bool.or_self]
    · have hplace : m.i + (l :: ls).length + 1 = m.i + 1 + ls.length + 1 := by
        rw [length_cons]
        omega
      rw [hplace] at h
      exact h

theorem place_skip {m' : Machine} {r : Resume} {q : Script} {stop : Line} (hresume : m'.resume = some r)
    (hcounter : m'.resumeCounter = 1) (hignore : m'.ignoreLine = false) (hq : q.WellFormed)
    (hcode : Code scope.lines m'.i (q.lines ++ [stop]))
    (hstop : SkipsTo r 1 [] stop) (h : At scope.lines (m'.i + q.lines.length + 1) m'.loopStack p) : Place scope.lines m' p := by
  refine .skipping r q.lines stop hresume hignore hcode ?_ h
  rw [hcounter, ← append_nil q.lines]
  exact skipsTo_script q hq (by decide) hstop

/-- The skipping of an `if` or an `else` ends at the end of the block. -/
theorem stop_endIf {r : Resume} {close : Line} (hr : r = .afterIf ∨ r = .afterElse) (hclose : isEnd ifWord close = true) :
    SkipsTo r 1 [] close := by
  have hcount : countBlock ifWord 1 close = 0 := countBlock_end (by decide) hclose
  refine ⟨?_, .inl hclose⟩
  rcases hr with rfl | rfl
  · rw [Resume.test]
    split
    · rfl
    · exact decide_eq_true hcount
  · exact decide_eq_true hcount

theorem stop_else (hmiddle : isExact elseWord middle = true) : SkipsTo .afterIf 1 [] middle := by
  have htest : Resume.afterIf.test 1 middle = ⟨true, 1, true⟩ := by
    simp [Resume.test, hmiddle]
  rw [SkipsTo, htest]
  exact ⟨rfl, .inr ⟨.inl hmiddle, rfl⟩⟩

theorem stop_endLoop (hclose : isEnd loopWord close = true) : SkipsTo .afterLoop 1 [] close := by
  have hcount : countBlock loopWord 1 close = 0 := countBlock_end (by decide) hclose
  exact ⟨decide_eq_true hcount, .inr ⟨.inr hclose, decide_eq_true hcount⟩⟩

theorem Code.block {lines : List Line} {i : ℕ} {q : Script} {stop : Line} {ls : List Line}
    (h : Code lines i (q.lines ++ stop :: ls)) : Code lines i (q.lines ++ [stop]) := by
  rw [← singleton_append, ← append_assoc] at h
  exact h.left

theorem At.cast (h : At lines i stack p) (hij : i = j) : At lines j stack p := hij ▸ h

section Blocks

variable {q k : Script} (hresume : m.resume = none) (hq : q.WellFormed) (hcode : Code scope.lines m.i q.lines)
  (h : At scope.lines (m.i + q.lines.length) m.loopStack k)
include hresume

/-- **A line with a condition**: what is behind it is run, or skipped up to the line where the block ends or goes on. -/
theorem turn_branch {body yes no : Script} {ls : List Line} {stack : List ℕ}
    (hcode : Code scope.lines m.i (head :: (body.lines ++ stop :: ls))) (hbody : body.WellFormed)
    (hline : process results scope head m = if isTruthy (results (m.trace ++ [⟨.condition, head.tail⟩])) then
        some (Machine.goOn { m.execute ⟨.condition, head.tail⟩ with loopStack := stack } (m.i + 1))
      else some (((m.execute ⟨.condition, head.tail⟩).skip r).goOn (m.i + 1)))
    (hc : Config.step results ⟨p, m.trace, m.output⟩ =
      some (Config.branch results ⟨p, m.trace, m.output⟩ head.tail (body.append yes) no))
    (hstop : SkipsTo r 1 [] stop)
    (hyes : At scope.lines (m.i + 1 + body.lines.length) stack yes)
    (hno : At scope.lines (m.i + 1 + body.lines.length + 1) m.loopStack no) : Turn results scope m p := by
  have hstep := (@step_of_line results _ _ _ hcode.head hresume).trans hline
  by_cases htruthy : isTruthy (results (m.trace ++ [⟨.condition, head.tail⟩])) = true
  · rw [if_pos htruthy] at hstep
    refine .runs _ _ hstep hc rfl rfl (.here hresume rfl ?_)
    simp only [Config.branch, if_pos htruthy]
    exact .block body hbody hcode.tail.left hyes
  · rw [if_neg htruthy] at hstep
    refine .runs _ _ hstep hc rfl rfl (place_skip rfl rfl rfl hbody hcode.tail.block hstop ?_)
    simp only [Config.branch, if_neg htruthy]
    exact hno

include hq hcode h

/-- **A command.** -/
theorem turn_command (heq : q = .command line rest) : Turn results scope m (q.append k) := by
  subst heq
  have hstep : step results scope m = _ := (step_of_line hcode.head hresume).trans (process_command hq.1)
  have hrest : At scope.lines (m.i + 1) m.loopStack (rest.append k) :=
    .block rest hq.2 hcode.tail (h.cast (by simp [Script.lines]; omega))
  exact .runs _ _ hstep rfl rfl rfl (.here hresume rfl hrest)

/-- **`if` without `else`.** -/
theorem turn_ifThen (heq : q = .ifThen head yes close rest) : Turn results scope m (q.append k) := by
  subst heq
  obtain ⟨hhead, hyes, hclose, hrest⟩ := hq
  have hbody := hcode.tail
  have hbehind : At scope.lines (m.i + 1 + yes.lines.length + 1) m.loopStack (rest.append k) :=
    .block rest hrest hbody.right.tail (h.cast (by simp [Script.lines]; omega))
  exact turn_branch hresume hcode hyes (process_if hhead) rfl (stop_endIf (.inl rfl) hclose)
    (.endIf hbody.right.head hclose hbehind) hbehind

/-- **`if` with `else`.** -/
theorem turn_ifElse (heq : q = .ifElse head yes middle no close rest) : Turn results scope m (q.append k) := by
  subst heq
  obtain ⟨hhead, hyes, hmiddle, hno, hclose, hrest⟩ := hq
  have hbody := hcode.tail
  have helse := hbody.right.tail
  have hbehind : At scope.lines (m.i + 1 + yes.lines.length + 1 + no.lines.length + 1) m.loopStack (rest.append k) :=
    .block rest hrest helse.right.tail (h.cast (by simp [Script.lines]; omega))
  refine turn_branch hresume hcode hyes (process_if hhead) rfl (stop_else hmiddle)
    (.middle no hmiddle hno hclose ?_ hbehind)
    (.block no hno helse.left (.endIf helse.right.head hclose hbehind))
  have hright := hbody.right
  rw [← singleton_append (x := close), ← append_assoc] at hright
  exact hright.left

/-- **A loop.** -/
theorem turn_loop (heq : q = .loop head body close rest) : Turn results scope m (q.append k) := by
  subst heq
  obtain ⟨hhead, hbody, hclose, hrest⟩ := hq
  have hinside := hcode.tail
  have hbehind : At scope.lines (m.i + 1 + body.lines.length + 1) m.loopStack (rest.append k) :=
    .block rest hrest hinside.right.tail (h.cast (by simp [Script.lines]; omega))
  refine turn_branch hresume hcode hbody (process_loop hhead) rfl (stop_endLoop hclose)
    (.endLoop body ⟨hhead, hbody, hclose, trivial⟩ ?_ rfl hbehind) hbehind
  have hall : Code scope.lines m.i ((head :: (body.lines ++ [close])) ++ rest.lines) := by
    simpa [Script.lines] using hcode
  exact hall.left

end Blocks

/-- **A turn at a place of the program.** -/
theorem step_at (h : At scope.lines i stack p) (hi : m.i = i) (hstack : m.loopStack = stack)
    (hresume : m.resume = none) (hignore : m.ignoreLine = false) : Turn results scope m p := by
  induction h with
  | stop =>
    refine .ends ?_ hi rfl
    simp only [step, hi, getElem?_eq_none (Nat.le_refl _)]
  | block q hq hcode h ih =>
    subst hi hstack
    cases q with
    | done => exact ih rfl rfl
    | command line rest => exact turn_command hresume hq hcode h rfl
    | ifThen head yes close rest => exact turn_ifThen hresume hq hcode h rfl
    | ifElse head yes middle no close rest => exact turn_ifElse hresume hq hcode h rfl
    | loop head body close rest => exact turn_loop hresume hq hcode h rfl
  | endIf hline hclose h =>
    subst hi hstack
    refine .silent (m.goOn (m.i + 1)) ?_ rfl rfl (.here hresume rfl h)
      (distance_next hline (.inr (.inl (firstWord_of_isEnd hclose))) rfl)
    exact (step_of_line hline hresume).trans (process_endIf hclose)
  | middle no hmiddle hno hclose hcode h =>
    subst hi hstack
    refine .silent ((m.skip .afterElse).goOn (m.i + 1)) ?_ rfl rfl
      (place_skip rfl rfl rfl hno hcode.tail (stop_endIf (.inr rfl) hclose) h)
      (distance_next hcode.head (.inr (.inr (firstWord_of_isExact hmiddle))) rfl)
    rw [step_of_line hcode.head hresume, process_else hmiddle, hignore, if_neg Bool.false_ne_true]
  | @endLoop i j stack k head close body hq hcode hend h =>
    have hclose : scope.lines[m.i]? = some close := by
      rw [hi, hend]
      exact hcode.tail.right.head
    have hstep := (@step_of_line results _ _ _ hclose hresume).trans (process_endLoop hq.2.2.1 hignore hstack)
    refine .silent _ hstep rfl rfl (.here hresume rfl ?_) ?_
    · refine .block (.loop head body close .done) hq hcode (h.cast ?_)
      show i + 1 = j + (Script.lines (.loop head body close .done)).length
      simp only [Script.lines, length_cons, length_append, length_nil]
      omega
    · -- the line the machine goes back to evaluates the condition
      have hword : firstWord head = some loopWord := isStart_iff.mp hq.1
      have hhere : runsAt scope.lines j = true := by
        rw [runsAt, hcode.head]
        simp only [hword]
        decide
      have hnear : distance scope.lines (Machine.goOn { m with loopStack := stack } j) = 0 := if_pos ⟨hresume, hhere⟩
      obtain ⟨hfar, hlt⟩ := distance_far hclose (.inr (.inl (firstWord_of_isEnd hq.2.2.1)))
      rw [hnear]
      omega

theorem turn_of_place (h : Place scope.lines m p) : Turn results scope m p := by
  cases h with
  | here hresume hignore h => exact step_at h rfl rfl hresume hignore
  | skipping r skipped stop hresume hignore hcode hskip h => exact step_skipping hresume hignore hcode hskip h

end Turns

/-! ### Runs -/

/-- The machine has run what the program has run, and is where the program is. -/
structure Related (lines : List Line) (m : Machine) (c : Config) : Prop where
  trace : m.trace = c.trace
  output : m.output = c.output
  place : Place lines m c.script

theorem Related.stops (h : Related scope.lines m c)
    (hs : step results scope m = none) : m.i = scope.lines.length ∧ c.script = .done := by
  cases @turn_of_place results _ _ _ h.place with
  | ends _ hi hp => exact ⟨hi, hp⟩
  | silent m'' hs' _ _ _ _ | runs m'' c' hs' _ _ _ _ =>
    rw [hs'] at hs
    cases hs

/-- `Run` is the program, with turns in between. -/
def runSimulates (results : Results) (scope : Scope) :
    Simulates (step results scope) (Config.step results) (Related scope.lines) where
  measure := distance scope.lines
  step m c m' h hs := by
    obtain ⟨script, trace, output⟩ := c
    obtain ⟨rfl, rfl, hplace⟩ := h
    cases turn_of_place hplace with
    | ends hs' _ _ =>
        rw [hs'] at hs
        cases hs
    | silent m'' hs' ht ho hplace' hlt =>
        rw [hs'] at hs
        cases hs
        exact .inl ⟨⟨ht, ho, hplace'⟩, hlt⟩
    | runs m'' c' hs' hc ht ho hplace' =>
        rw [hs'] at hs
        cases hs
        exact .inr ⟨c', hc, ht, ho, hplace'⟩
  stop m c h hs := by rw [Config.step, (h.stops hs).2]

/-! ### The text -/

theorem isBlank_of_firstWord (h : firstWord line = some (c :: cs)) (hc : c ≠ '#') : isBlank line = false := by
  obtain ⟨first, rest, rfl, hfirst⟩ := eq_cons_of_firstWord h
  cases first with
  | nil => cases hfirst
  | cons d ds =>
    have hd : d.toLower = c := (cons.inj hfirst).1
    rw [isBlank, commentWord, isPrefixOf_cons_cons, and_eq_false_iff]
    left
    rw [beq_eq_false_iff_ne]
    rintro rfl
    exact hc (hd.symm.trans (by decide))

def IsRun (line : Line) : Prop :=
  isBlank line = false ∧ isStart functionWord line = false ∧ isStart labelWord line = false

theorem isRun_of_word (h : firstWord line = some (c :: cs)) (hc : c ≠ '#')
    (hfunction : c :: cs ≠ functionWord) (hlabel : c :: cs ≠ labelWord) : IsRun line :=
  ⟨isBlank_of_firstWord h hc, isStart_of_firstWord h hfunction, isStart_of_firstWord h hlabel⟩

theorem isRun_of_isCommand (h : isCommand line = true) : IsRun line := by
  obtain ⟨word, hword, hkey⟩ := word_of_isCommand h
  refine ⟨?_, isStart_of_firstWord hword fun heq => hkey (heq ▸ by decide),
    isStart_of_firstWord hword fun heq => hkey (heq ▸ by decide)⟩
  simp only [isCommand, and_eq_true, not_eq_true'] at h
  exact h.1

theorem isRun_start (hblock : block = ifWord ∨ block = loopWord)
    (h : isStart block line = true) : IsRun line := by
  have hword := isStart_iff.mp h
  rcases hblock with rfl | rfl
  · exact isRun_of_word hword (by decide) (by decide) (by decide)
  · exact isRun_of_word hword (by decide) (by decide) (by decide)

theorem isRun_end (h : isEnd block line = true) : IsRun line :=
  isRun_of_word (firstWord_of_isEnd h) (by decide) (by decide) (by decide)

theorem isRun_else (h : isExact elseWord line = true) : IsRun line :=
  isRun_of_word (firstWord_of_isExact h) (by decide) (by decide) (by decide)

theorem isRun_lines (p : Script) (hp : p.WellFormed) : ∀ line ∈ p.lines, IsRun line := by
  induction p with
  | done => exact nofun
  | command line rest ih =>
    rw [Script.lines, forall_mem_cons]
    exact ⟨isRun_of_isCommand hp.1, ih hp.2⟩
  | ifThen head yes close rest ihyes ihrest =>
    obtain ⟨hhead, hyes, hclose, hrest⟩ := hp
    simp only [Script.lines, forall_mem_cons, forall_mem_append]
    exact ⟨isRun_start (.inl rfl) hhead, ihyes hyes, isRun_end hclose, ihrest hrest⟩
  | ifElse head yes middle no close rest ihyes ihno ihrest =>
    obtain ⟨hhead, hyes, hmiddle, hno, hclose, hrest⟩ := hp
    simp only [Script.lines, forall_mem_cons, forall_mem_append]
    exact ⟨isRun_start (.inl rfl) hhead, ihyes hyes, isRun_else hmiddle, ihno hno, isRun_end hclose, ihrest hrest⟩
  | loop head body close rest ihbody ihrest =>
    obtain ⟨hhead, hbody, hclose, hrest⟩ := hp
    simp only [Script.lines, forall_mem_cons, forall_mem_append]
    exact ⟨isRun_start (.inr rfl) hhead, ihbody hbody, isRun_end hclose, ihrest hrest⟩

theorem foldl_parseLine {clines : List Line} (scope : Scope)
    (h : ∀ line ∈ clines, isBlank line = false → IsRun line) : clines.foldl parseLine ⟨scope, none⟩ =
      ⟨⟨scope.lines ++ clines.filter fun line => !isBlank line, scope.labels⟩, none⟩ := by
  induction clines generalizing scope with
  | nil => simp
  | cons line clines ih =>
    rw [forall_mem_cons] at h
    rw [foldl_cons]
    cases hblank : isBlank line with
    | true =>
      rw [parseLine, if_pos hblank, ih scope h.2]
      simp [hblank]
    | false =>
      obtain ⟨-, hfunction, hlabel⟩ := h.1 hblank
      have hline : parseLine ⟨scope, none⟩ line = ⟨{ scope with lines := scope.lines ++ [line] }, none⟩ := by
        simp [parseLine, hblank, parseOutside, hfunction, hlabel]
      rw [hline, ih _ h.2]
      simp [hblank]

/-- **`Parse` leaves comments and empty lines out**, and nothing else of a program. -/
theorem parseLines_eq {clines : List Line} {p : Script} (hp : p.WellFormed)
    (hlines : clines.filter (fun line => !isBlank line) = p.lines) : (parseLines clines).lines = p.lines := by
  have hrun : ∀ line ∈ clines, isBlank line = false → IsRun line := by
    intro line hmem hblank
    apply isRun_lines p hp
    rw [← hlines, mem_filter]
    exact ⟨hmem, by rw [hblank]; rfl⟩
  rw [parseLines, foldl_parseLine _ hrun, hlines, nil_append]

theorem related_start (hp : p.WellFormed) (hlines : lines = p.lines) : Related lines .start ⟨p, [], []⟩ := by
  have hall : Code lines 0 p.lines := ⟨[], by rw [hlines, append_nil]; rfl⟩
  have hat : At lines 0 [] (p.append .done) := by
    refine .block p hp hall ?_
    rw [Nat.zero_add, ← hlines]
    exact .stop
  have happend : p.append .done = p := by
    clear hall hat hp hlines
    induction p with
    | done => rfl
    | command line rest ih | ifThen head yes close rest _ ih | ifElse head yes middle no close rest _ _ ih
    | loop head body close rest _ ih => rw [Script.append, ih]
  rw [happend] at hat
  exact ⟨rfl, rfl, .here rfl rfl hat⟩

/-- **`Run` executes the structured program.**  The lines of the script are those of a well-formed program, with comments
and empty lines anywhere between them.  Whatever the results are, after every turn `Run` has executed what the program has
executed after some steps, and it stops only at the end of the script and of the program; and whatever the program has
executed after some steps, `Run` executes, and stops if that is the end of the program. -/
theorem run_structured (results : Results) (clines : List Line) (p : Script) (hp : p.WellFormed)
    (hlines : clines.filter (fun line => !isBlank line) = p.lines) :
    (∀ k m, machineRun results clines k = some m →
      ∃ n c, structuredRun results p n = some c ∧ m.trace = c.trace ∧ m.output = c.output ∧
        (step results (parseLines clines) m = none →
          m.i = (parseLines clines).lines.length ∧ c.script = .done)) ∧
    (∀ n c, structuredRun results p n = some c →
      ∃ k m, machineRun results clines k = some m ∧ m.trace = c.trace ∧ m.output = c.output ∧
        (c.script = .done → step results (parseLines clines) m = none)) := by
  have hstart := related_start hp (parseLines_eq hp hlines)
  have hsim := runSimulates results (parseLines clines)
  constructor
  · intro k m hm
    obtain ⟨n, c, hc, hrelated⟩ := hsim.forward hstart hm
    exact ⟨n, c, hc, hrelated.trace, hrelated.output, hrelated.stops⟩
  · intro n c hc
    obtain ⟨k, m, hm, hrelated⟩ := hsim.backward hstart hc
    by_cases hdone : c.script = .done
    · have hend : Config.step results c = none := by rw [Config.step, hdone]
      obtain ⟨k', m', hm', hstop, hrelated'⟩ := hsim.ends hrelated hend
      exact ⟨k + k', m', iterate_trans hm hm', hrelated'.trace, hrelated'.output, fun _ => hstop⟩
    · exact ⟨k, m, hm, hrelated.trace, hrelated.output, fun h => absurd h hdone⟩

/-- A loop with an `if` in it. -/
def demo : Script :=
  .loop [loopWord, ['c']]
    (.ifElse [ifWord, ['d']] (.command [['a']] .done) [elseWord] (.command [['b']] .done) [endWord, ifWord] .done)
    [endWord, loopWord] .done

/-- The first three lines that are run give 1, the others nothing. -/
def demoResults : Results := fun trace => if trace.length < 4 then ['1'] else []

theorem run_structured_demo : ∃ k m, machineRun demoResults ([['#']] :: demo.lines) k = some m ∧
    m.trace = [⟨.condition, [['c']]⟩, ⟨.condition, [['d']]⟩, ⟨.command, [['a']]⟩, ⟨.condition, [['c']]⟩] ∧
    step demoResults (parseLines ([['#']] :: demo.lines)) m = none := by
  have hdemo : demo.WellFormed :=
    ⟨by decide, ⟨by decide, ⟨by decide, trivial⟩, by decide, ⟨by decide, trivial⟩, by decide, trivial⟩, by decide,
      trivial⟩
  obtain ⟨k, m, hm, htrace, -, hstop⟩ :=
    (run_structured demoResults ([['#']] :: demo.lines) demo hdemo (by decide)).2 4
      ⟨.done, [⟨.condition, [['c']]⟩, ⟨.condition, [['d']]⟩, ⟨.command, [['a']]⟩, ⟨.condition, [['c']]⟩],
        ['1', '\n']⟩ (by decide)
  exact ⟨k, m, hm, htrace, hstop rfl⟩

end Btos.User.Cmd.Scripting
