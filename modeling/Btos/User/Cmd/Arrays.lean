import Btos.Lib.Fields
import Btos.Lib.Trim

/-!
# Arrays in scripts

Arrays are texts such as `["a","b"]`.  `parse_array` and `deparse_array` of `user/libs/cmd/script_commands.cpp` read
and write them; `ScriptContext::Run` of `scripting.cpp` writes the arguments of a script in its own way.

* `arrayStep`, `parseArray` — **the reader**, with a flag for quotes and a flag for a quote just before;
* `deparseArray`, `argsValue` — **the writers**: one doubles the quotes in an element, the other does not;
* `arrayReader`, `parseArray_eq` — **the reader** splits at commas.
-/

namespace Btos.User.Cmd.Arrays

open Lib.Trim Lib.Fields List

/-! ### Helpers -/

def trimchar (str : List Char) (c : Char) : List Char := strip c str

/-- `trim`: line ends first, then blanks. -/
def trim (str : List Char) : List Char := trimchar (trimchar str '\n') ' '

/-- `string::find` of a string. -/
def findString (target : List Char) : List Char → Option ℕ
  | [] => if target = [] then some 0 else none
  | c :: cs => if target.isPrefixOf (c :: cs) then some 0 else (findString target cs).map (· + 1)

/-- The loop of `replace`, with a bound on its turns. -/
def replaceLoop (target replacement : List Char) : ℕ → List Char → List Char
  | 0, postPart => postPart
  | n + 1, postPart =>
      match findString target postPart with
      | none => postPart
      | some pos =>
          if postPart = [] then postPart
          else postPart.take pos ++ replacement ++
            replaceLoop target replacement n (postPart.drop (pos + target.length))

/-- `replace`.  Every turn takes a character or more, unless `target` is empty. -/
def replace (input target replacement : List Char) : List Char :=
  replaceLoop target replacement input.length input

/-! ### Reading -/

def quote : Char := '"'

/-- The variables of the loop in `parse_array`. -/
structure ArrayState where
  ret : List (List Char)
  cur : List Char
  inQuotes : Bool
  justQuote : Bool
  deriving DecidableEq, Repr

def arrayStep (s : ArrayState) (c : Char) : ArrayState :=
  if c = quote then
    if s.justQuote then { s with inQuotes := !s.inQuotes, cur := s.cur ++ [c], justQuote := false }
    else { s with inQuotes := !s.inQuotes, justQuote := true }
  else
    let s := { s with justQuote := false }
    if s.inQuotes ∨ c ≠ ',' then { s with cur := s.cur ++ [c] }
    else { s with ret := s.ret ++ [trim s.cur], cur := [] }

/-- What stands behind the last comma is an element unless it is empty. -/
def ArrayState.finish (s : ArrayState) : List (List Char) :=
  if trim s.cur = [] then s.ret else s.ret ++ [trim s.cur]

def parseArray (str : List Char) : List (List Char) :=
  if str.head? = some '[' ∧ str.getLast? = some ']' then
    (((str.drop 1).take (str.length - 2)).foldl arrayStep ⟨[], [], false, false⟩).finish
  else []

/-! ### Writing -/

def joinElements (text : List Char → List Char) : Bool → List (List Char) → List Char
  | _, [] => []
  | first, a :: as => (if first then [] else [',']) ++ text a ++ joinElements text false as

/-- An element as `deparse_array` writes it. -/
def deparseElement (a : List Char) : List Char := [quote] ++ replace a [quote] [quote, quote] ++ [quote]

def deparseArray (arr : List (List Char)) : List Char := ['['] ++ joinElements deparseElement true arr ++ [']']

/-- An argument as `ScriptContext::Run` writes it. -/
def argElement (a : List Char) : List Char := [quote] ++ a ++ [quote]

/-- The value of the variable `args`. -/
def argsValue (args : List (List Char)) : List Char := ['['] ++ joinElements argElement true args ++ [']']

theorem parseArray_brackets (l : List Char) :
    parseArray (['['] ++ l ++ [']']) = (l.foldl arrayStep ⟨[], [], false, false⟩).finish := by
  have hcut : ((['['] ++ l ++ [']']).drop 1).take ((['['] ++ l ++ [']']).length - 2) = l := by
    simp
  rw [parseArray, if_pos ⟨rfl, getLast?_concat⟩, hcut]

/-! ### Quotes are doubled -/

theorem replaceLoop_cons (hc : c ≠ quote) (r : List Char) (n : ℕ) (cs : List Char) :
    replaceLoop [quote] r (n + 1) (c :: cs) = c :: replaceLoop [quote] r (n + 1) cs := by
  have hfind : findString [quote] (c :: cs) = (findString [quote] cs).map (· + 1) := by
    rw [findString, if_neg]
    simpa [List.isPrefixOf] using Ne.symm hc
  rw [replaceLoop, hfind, replaceLoop]
  cases hcs : findString [quote] cs with
  | none => rfl
  | some pos =>
    have hne : cs ≠ [] := by
      rintro rfl
      simp [findString] at hcs
    simp [hne]

theorem replaceLoop_quote (r : List Char) (n : ℕ) (cs : List Char) :
    replaceLoop [quote] r (n + 1) (quote :: cs) = r ++ replaceLoop [quote] r n cs := by
  have hfind : findString [quote] (quote :: cs) = some 0 := by
    simp [findString, List.isPrefixOf]
  rw [replaceLoop, hfind]
  simp

def double (c : Char) : List Char := if c = quote then [quote, quote] else [c]

theorem replaceLoop_eq (n : ℕ) (l : List Char) (h : l.length ≤ n) :
    replaceLoop [quote] [quote, quote] n l = l.flatMap double := by
  induction l generalizing n with
  | nil => cases n <;> simp [replaceLoop, findString]
  | cons c cs ih =>
    rw [length_cons] at h
    obtain ⟨n, rfl⟩ : ∃ k, n = k + 1 := ⟨n - 1, by omega⟩
    by_cases hc : c = quote
    · subst hc
      rw [replaceLoop_quote, ih n (by omega)]
      simp [double]
    · rw [replaceLoop_cons hc, ih (n + 1) (by omega)]
      simp [double, hc]

/-- **Every quote is doubled.** -/
theorem replace_quote (l : List Char) : replace l [quote] [quote, quote] = l.flatMap double :=
  replaceLoop_eq l.length l le_rfl

/-! ### Fields -/

theorem count_trim (hblank : c ≠ ' ') (hline : c ≠ '\n') (l : List Char) : (trim l).count c = l.count c := by
  rw [trim, trimchar, count_strip hblank, trimchar, count_strip hline]

/-- What `parse_array` does with a character between commas, with its two flags. -/
def arrayMove : Bool × Bool → Char → Move (Bool × Bool)
  | (q, j), c =>
      if c = quote then if j then .keep (!q, false) else .skip (!q, true)
      else if q ∨ c ≠ ',' then .keep (q, false)
      else .split (q, false)

def arrayReader : Reader Char (Bool × Bool) where
  move := arrayMove
  start := (false, false)
  sep := ','
  trim := trim
  last cur := if trim cur = [] then [] else [trim cur]
  split_sep {s c s'} h := by
    simp only [arrayMove] at h
    split_ifs at h
    simp_all
  skip_ne_sep {s c s'} h := by
    rintro rfl
    simp only [arrayMove] at h
    split_ifs at h
    simp_all [quote]
  count_trim l := count_trim (by decide) (by decide) l
  last_cases l := by
    split
    · exact .inl rfl
    · exact .inr rfl

theorem move_arrayReader : arrayReader.move = arrayMove := rfl

theorem foldl_arrayStep (l : List Char) (ret : List (List Char)) (cur : List Char) (q j : Bool) :
    (l.foldl arrayStep ⟨ret, cur, q, j⟩).finish = ret ++ arrayReader.fields (q, j) cur l := by
  induction l generalizing ret cur q j with
  | nil =>
    show (if trim cur = [] then _ else _) = ret ++ if trim cur = [] then [] else [trim cur]
    split
    · exact (append_nil ret).symm
    · rfl
  | cons c cs ih =>
    simp only [foldl_cons, arrayStep, Reader.fields, move_arrayReader, arrayMove]
    split_ifs <;> simp [ih, arrayReader]

/-- **The reader gives the fields** between the brackets. -/
theorem parseArray_eq (l : List Char) :
    parseArray (['['] ++ l ++ [']']) = arrayReader.fields (false, false) [] l := by
  rw [parseArray_brackets, foldl_arrayStep, nil_append]

theorem move_sep_iff {s : Bool × Bool} : arrayReader.move s ',' = .split (false, false) ↔ s.1 = false := by
  obtain ⟨q, j⟩ := s
  cases q <;> simp [move_arrayReader, arrayMove, quote]

section Scan

variable {c : Char} {cs w : List Char} {q j : Bool}

theorem scan_quote_true (h : arrayReader.scan (q, true) (quote :: cs) = some (w, s)) :
    ∃ w', w = quote :: w' ∧ arrayReader.scan (!q, false) cs = some (w', s) :=
  Reader.scan_of_keep (by simp [move_arrayReader, arrayMove]) h

theorem scan_cons (hc : c ≠ quote) (h : arrayReader.scan (q, j) (c :: cs) = some (w, s)) :
    ∃ w', w = c :: w' ∧ arrayReader.scan (q, false) cs = some (w', s) ∧ (q = true ∨ c ≠ ',') := by
  rcases Reader.scan_cons_cases h with ⟨s', w', hmove, hw, hr⟩ | ⟨s', hmove, -⟩
  all_goals
    simp only [move_arrayReader, arrayMove, if_neg hc] at hmove
    split_ifs at hmove with hkeep
  cases hmove
  exact ⟨w', hw, hr, hkeep⟩

end Scan

end Btos.User.Cmd.Arrays
