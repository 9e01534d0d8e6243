import Btos.Lib.Fields
import Btos.Lib.Trim

/-!
# Tables of comma-separated values

`trim`, `splitline` and `parsecsv` of `user/libs/btoslib/table.cpp`, and what they read in lines of texts between
quotes and of numbers.

* `SplitState`, `splitStep`, `splitline` — **one line**: a quote switches the meaning of the delimiter, a backslash
  takes that of the next character away, and both are left out;
* `scanText_iff` — **a text between quotes** comes back exactly if it is `Clean`: it has neither quotes nor
  backslashes, nor blanks at its ends;
* `Cell`, `lineText` — **a line that was written**, with a comma and a blank between two cells;
* `splitcsv_iff` — **a line with a number at its end** comes back exactly if its texts do.
-/

namespace Btos.User.Btoslib.Csv

open Lib.Trim Lib.Fields List Option

/-! ### Reading -/

def trim (str : List Char) : List Char := strip ' ' str

/-- The variables of the loop in `splitline`. -/
structure SplitState where
  ret : List (List Char)
  current : List Char
  quote : Bool
  escape : Bool
  deriving DecidableEq, Repr

def splitStep (delim : Char) (s : SplitState) (c : Char) : SplitState :=
  if !s.escape && c = '"' then { s with quote := !s.quote }
  else if !s.escape && c = '\\' then { s with escape := true }
  else if !s.escape && !s.quote && c = delim then { s with ret := s.ret ++ [trim s.current], current := [] }
  else { s with escape := false, current := s.current ++ [c] }

/-- What stands behind the last delimiter is a field unless it is empty. -/
def SplitState.finish (s : SplitState) : List (List Char) :=
  if s.current.length ≠ 0 then s.ret ++ [trim s.current] else s.ret

def splitline (line : List Char) (delim : Char) : List (List Char) :=
  (line.foldl (splitStep delim) ⟨[], [], false, false⟩).finish

def splitcsv (line : List Char) : List (List Char) := splitline line ','

/-- The lines that `getline` gives one after the other. -/
def getlines : List Char → List (List Char)
  | [] => []
  | c :: cs =>
      if c = '\n' then [] :: getlines cs
      else match getlines cs with
        | [] => [[c]]
        | l :: ls => (c :: l) :: ls

/-- `table_row`, in the order of insertion. -/
abbrev TableRow := List (List Char × List Char)

/-- `row.insert`: a key that is there stays as it is. -/
def TableRow.insert (row : TableRow) (header field : List Char) : TableRow :=
  if row.any (fun e => e.1 = header) then row else row ++ [(header, field)]

structure Table where
  headers : List (List Char)
  rows : List TableRow
  deriving DecidableEq, Repr

def makeRow (headers fields : List (List Char)) : TableRow :=
  (headers.zip fields).foldl (fun row e => TableRow.insert row e.1 e.2) []

/-- **`parsecsv`.**  A header of one character is an exception. -/
def parsecsv (file : List Char) : Option Table :=
  match getlines file with
  | [] => some ⟨[], []⟩
  | header :: lines =>
      if header.head? ≠ some '#' then some ⟨[], []⟩
      else if header.length < 2 then none
      else
        let headers := splitcsv (header.drop 2)
        some ⟨headers, lines.filterMap fun line =>
          let fields := splitcsv line
          if fields.length ≠ headers.length then none else some (makeRow headers fields)⟩

/-! ### Fields -/

/-- What `splitline` does with a character between commas, with the flags for quotes and for a backslash. -/
def csvMove : Bool × Bool → Char → Move (Bool × Bool)
  | (q, e), c =>
      if !e && c = '"' then .skip (!q, e)
      else if !e && c = '\\' then .skip (q, true)
      else if !e && !q && c = ',' then .split (q, e)
      else .keep (q, false)

def csvReader : Reader Char (Bool × Bool) where
  move := csvMove
  start := (false, false)
  sep := ','
  trim := trim
  last current := if current.length ≠ 0 then [trim current] else []
  split_sep {s c s'} h := by
    simp only [csvMove] at h
    split_ifs at h
    simp_all
  skip_ne_sep {s c s'} h := by
    rintro rfl
    simp only [csvMove] at h
    split_ifs at h <;> simp_all
  count_trim l := count_strip (by decide) l
  last_cases l := by
    split
    · exact .inr rfl
    · exact .inl rfl

@[simp] theorem move_csvReader : csvReader.move = csvMove := rfl

theorem foldl_splitStep (l : List Char) (ret : List (List Char)) (current : List Char) (q e : Bool) :
    (l.foldl (splitStep ',') ⟨ret, current, q, e⟩).finish = ret ++ csvReader.fields (q, e) current l := by
  induction l generalizing ret current q e with
  | nil =>
    show (if current.length ≠ 0 then _ else _) = ret ++ if current.length ≠ 0 then [trim current] else []
    split
    · rfl
    · exact (append_nil ret).symm
  | cons c cs ih =>
    rw [foldl_cons, splitStep, Reader.fields, move_csvReader, csvMove]
    split_ifs <;> simp [ih, csvReader]

/-- **The reader of a line** splits it into fields. -/
theorem splitcsv_eq (l : List Char) : splitcsv l = csvReader.fields (false, false) [] l := by
  rw [splitcsv, splitline, foldl_splitStep, nil_append]

section Scan

variable {c : Char} {cs w : List Char} {q e q' e' : Bool}

theorem move_sep_iff {s : Bool × Bool} : csvReader.move s ',' = .split (false, false) ↔ s = (false, false) := by
  obtain ⟨q, e⟩ := s
  cases q <;> cases e <;> simp [csvMove]

theorem csvMove_plain (hquote : c ≠ '"') (hesc : c ≠ '\\') (hkeep : q = true ∨ c ≠ ',') :
    csvReader.move (q, false) c = .keep (q, false) := by
  cases q <;> simp_all [csvMove]

theorem scan_escaped (h : csvReader.scan (q, true) (c :: cs) = some (w, s)) :
    ∃ w', w = c :: w' ∧ csvReader.scan (q, false) cs = some (w', s) :=
  Reader.scan_of_keep (by simp [csvMove]) h

/-- Without a backslash before it, a quote or a backslash is left out. -/
theorem scan_unescaped (h : csvReader.scan (q, false) (c :: cs) = some (w, s)) :
    (c = '"' ∧ csvReader.scan (!q, false) cs = some (w, s)) ∨ (c = '\\' ∧ csvReader.scan (q, true) cs = some (w, s)) ∨
      ¬ (c = '"' ∨ c = '\\') ∧ ∃ w', w = c :: w' ∧ csvReader.scan (q, false) cs = some (w', s) := by
  by_cases hquote : c = '"'
  · have hskip : csvReader.move (q, false) c = .skip (!q, false) := by simp [csvMove, hquote]
    rw [Reader.scan_skip hskip] at h
    exact .inl ⟨hquote, h⟩
  · by_cases hesc : c = '\\'
    · have hskip : csvReader.move (q, false) c = .skip (q, true) := by simp [csvMove, hesc]
      rw [Reader.scan_skip hskip] at h
      exact .inr (.inl ⟨hesc, h⟩)
    · refine .inr (.inr ⟨by simp [hquote, hesc], ?_⟩)
      rcases Reader.scan_cons_cases h with ⟨s', w', hmove, hw, hr⟩ | ⟨s', hmove, -⟩
      · simp only [move_csvReader, csvMove] at hmove
        split_ifs at hmove
        cases hmove
        exact ⟨w', hw, hr⟩
      · simp only [move_csvReader, csvMove] at hmove
        split_ifs at hmove <;> simp_all

end Scan

/-! ### Quotes and backslashes -/

def specials (l : List Char) : ℕ := l.count '"' + l.count '\\'

theorem specials_cons (c : Char) (l : List Char) :
    specials (c :: l) = specials l + if c = '"' ∨ c = '\\' then 1 else 0 := by
  by_cases hquote : c = '"'
  · subst hquote
    simp [specials]
    omega
  · by_cases hesc : c = '\\'
    · subst hesc
      simp [specials]
      omega
    · simp [specials, hquote, hesc]

theorem specials_trim (l : List Char) : specials (trim l) = specials l := by
  rw [specials, specials, trim, count_strip (by decide), count_strip (by decide)]

theorem specials_eq_zero_iff : specials l = 0 ↔ '"' ∉ l ∧ '\\' ∉ l := by
  rw [specials, Nat.add_eq_zero_iff, count_eq_zero, count_eq_zero]

/-- **Quotes and backslashes are lost**: up to the quote at the end of a text, no more of them stay than there are, and
all of them only if there are none, or if that quote does not count. -/
theorem scan_specials (y : List Char) : ∀ (q : Bool) {w : List Char} {q' e' : Bool},
    (csvReader.scan (q, false) (y ++ ['"']) = some (w, q', e') →
      specials w ≤ specials y ∧ (specials w = specials y → specials y = 0 ∧ w = y ∨ q' = q)) ∧
    (csvReader.scan (q, true) (y ++ ['"']) = some (w, q', e') →
      specials w ≤ specials y + 1 ∧ (specials w = specials y + 1 → q' = q)) := by
  induction y with
  | nil =>
    intro q w q' e'
    constructor
    all_goals
      intro h
      cases h
      simp [specials]
  | cons c cs ih =>
    intro q w q' e'
    rw [specials_cons]
    constructor
    · intro h
      rcases scan_unescaped h with ⟨rfl, hr⟩ | ⟨rfl, hr⟩ | ⟨hno, w', rfl, hr⟩
      · have hle := ((ih (!q)).1 hr).1
        rw [if_pos (.inl rfl)]
        omega
      · obtain ⟨hle, heq⟩ := (ih q).2 hr
        exact ⟨hle, fun hcount => .inr (heq hcount)⟩
      · obtain ⟨hle, heq⟩ := (ih q).1 hr
        rw [specials_cons, if_neg hno]
        refine ⟨hle, fun hcount => (heq hcount).imp ?_ id⟩
        rintro ⟨hzero, hw⟩
        exact ⟨hzero, by rw [hw]⟩
    · intro h
      obtain ⟨w', rfl, hr⟩ := scan_escaped h
      have hle := ((ih q).1 hr).1
      rw [specials_cons]
      omega

/-- A text that comes back: no quotes, no backslashes, and no blanks at its ends. -/
structure Clean (t : List Char) : Prop where
  quotes : '"' ∉ t
  backslashes : '\\' ∉ t
  trimmed : trim t = t

instance (t : List Char) : Decidable (Clean t) :=
  decidable_of_iff ('"' ∉ t ∧ '\\' ∉ t ∧ trim t = t)
    ⟨fun h => ⟨h.1, h.2.1, h.2.2⟩, fun h => ⟨h.quotes, h.backslashes, h.trimmed⟩⟩

theorem scan_clean (hquotes : '"' ∉ t) (hesc : '\\' ∉ t) (rest : List Char) :
    csvReader.scan (true, false) (t ++ rest) =
      (csvReader.scan (true, false) rest).map fun r => (t ++ r.1, r.2) := by
  induction t with
  | nil => simp
  | cons c cs ih =>
    rw [mem_cons, not_or] at hquotes hesc
    rw [cons_append, Reader.scan_keep (csvMove_plain (Ne.symm hquotes.1) (Ne.symm hesc.1) (.inl rfl)),
      ih hquotes.2 hesc.2]
    simp [Function.comp_def]

/-- **A text behind its first quote.** -/
theorem scanText_iff (t : List Char) :
    (∃ w, csvReader.scan (true, false) (t ++ ['"']) = some (w, false, false) ∧ trim w = t) ↔ Clean t := by
  constructor
  · rintro ⟨w, h, htrim⟩
    have hcount : specials w = specials t := by
      rw [← specials_trim w, htrim]
    rcases ((scan_specials t true).1 h).2 hcount with ⟨hzero, rfl⟩ | hopen
    · obtain ⟨hquotes, hesc⟩ := specials_eq_zero_iff.mp hzero
      exact ⟨hquotes, hesc, htrim⟩
    · cases hopen
  · intro h
    refine ⟨t, ?_, h.trimmed⟩
    rw [scan_clean h.quotes h.backslashes]
    simp [Reader.scan, csvMove]

/-! ### Lines that were written -/

/-- A number, by its digits: none of the characters with a meaning. -/
structure IsNumber (d : List Char) : Prop where
  ne_nil : d ≠ []
  plain : ∀ c ∈ d, c ≠ '"' ∧ c ≠ '\\' ∧ c ≠ ',' ∧ c ≠ ' '

/-- What is written in a line: a text between quotes, or a number. -/
inductive Cell where
  | text (t : List Char)
  | number (d : List Char)
  deriving DecidableEq, Repr

namespace Cell

def value : Cell → List Char
  | .text t => t
  | .number d => d

def written : Cell → List Char
  | .text t => '"' :: t ++ ['"']
  | .number d => d

def WellFormed : Cell → Prop
  | .text _ => True
  | .number d => IsNumber d

def Ok : Cell → Prop
  | .text t => Clean t
  | .number _ => True

end Cell

/-- **A line**, with what stands before its first cell. -/
def lineText : List Char → List Cell → List Char
  | _, [] => []
  | lead, [c] => lead ++ c.written
  | lead, c :: c' :: cs => lead ++ c.written ++ ',' :: lineText [' '] (c' :: cs)

def IsLead (lead : List Char) : Prop := lead = [] ∨ lead = [' ']

variable {lead : List Char} {d : List Char}

section

variable (h : IsLead lead) (l : List Char)
include h l

theorem trim_lead : trim (lead ++ l) = trim l := by
  rcases h with rfl | rfl
  · rfl
  · exact strip_cons_self ' ' l

theorem scan_lead : csvReader.scan (false, false) (lead ++ l) =
      (csvReader.scan (false, false) l).map fun r => (lead ++ r.1, r.2) := by
  rcases h with rfl | rfl
  · simp
  · exact Reader.scan_keep (csvMove_plain (by decide) (by decide) (.inr (by decide)))

theorem count_comma_lead : (lead ++ l).count ',' = l.count ',' := by
  rcases h with rfl | rfl <;> simp

end

theorem scan_number (h : ∀ c ∈ d, c ≠ '"' ∧ c ≠ '\\' ∧ c ≠ ',' ∧ c ≠ ' ') :
    csvReader.scan (false, false) d = some (d, false, false) := by
  induction d with
  | nil => rfl
  | cons c cs ih =>
    obtain ⟨hquote, hesc, hcomma, -⟩ := h c mem_cons_self
    rw [Reader.scan_keep (csvMove_plain hquote hesc (.inr hcomma)), ih fun x hx => h x (mem_cons_of_mem _ hx)]
    rfl

theorem trim_number (h : IsNumber d) : trim d = d := by
  refine strip_eq_self_iff.mpr ⟨fun hhead => ?_, fun hlast => ?_⟩
  · exact (h.plain ' ' (mem_of_mem_head? hhead)).2.2.2 rfl
  · exact (h.plain ' ' (mem_of_getLast? hlast)).2.2.2 rfl

section

variable (hlead : IsLead lead)
include hlead

/-- **One cell.** -/
theorem scanCell_iff {c : Cell} (hc : c.WellFormed) :
    (∃ w, csvReader.scan (false, false) (lead ++ c.written) = some (w, false, false) ∧ trim w = c.value) ↔ c.Ok := by
  rw [scan_lead hlead]
  cases c with
  | text t =>
    have hstart : csvReader.scan (false, false) (Cell.text t).written = csvReader.scan (true, false) (t ++ ['"']) :=
      Reader.scan_skip (by simp [csvMove])
    rw [hstart, Cell.Ok, ← scanText_iff]
    constructor
    · rintro ⟨w, h, htrim⟩
      obtain ⟨⟨w', q, e⟩, hr, hw⟩ := Option.map_eq_some_iff.mp h
      cases hw
      rw [trim_lead hlead] at htrim
      exact ⟨w', hr, htrim⟩
    · rintro ⟨w, hr, htrim⟩
      refine ⟨lead ++ w, by rw [hr]; rfl, ?_⟩
      rw [trim_lead hlead]
      exact htrim
  | number d =>
    refine iff_of_true ⟨lead ++ d, ?_, ?_⟩ trivial
    · rw [Cell.written, scan_number hc.plain]
      rfl
    · rw [trim_lead hlead]
      exact trim_number hc

theorem count_comma_written (c : Cell) :
    c.value.count ',' = (lead ++ c.written).count ',' := by
  rw [count_comma_lead hlead]
  cases c <;> simp [Cell.written, Cell.value]

/-- **The first of several cells.** -/
theorem fields_cons_iff {c : Cell} (hc : c.WellFormed) (c' : Cell) (cs : List Cell) :
    csvReader.fields (false, false) [] (lineText lead (c :: c' :: cs)) = (c :: c' :: cs).map Cell.value ↔
      c.Ok ∧ csvReader.fields (false, false) [] (lineText [' '] (c' :: cs)) = (c' :: cs).map Cell.value := by
  have hfields := @Reader.fields_sep_iff _ _ _ csvReader _ _ (lineText [' '] (c' :: cs)) ((c' :: cs).map Cell.value)
    (count_comma_written hlead c)
  rw [← scanCell_iff hlead hc]
  refine hfields.trans (and_congr ?_ Iff.rfl)
  simp only [show csvReader.sep = ',' from rfl, show csvReader.start = (false, false) from rfl, move_sep_iff]
  constructor
  · rintro ⟨w, _, hscan, rfl, htrim⟩
    exact ⟨w, hscan, htrim⟩
  · rintro ⟨w, hscan, htrim⟩
    exact ⟨w, _, hscan, rfl, htrim⟩

theorem fields_singleton (hd : IsNumber d) :
    csvReader.fields (false, false) [] (lineText lead [.number d]) = [d] := by
  have hscan : csvReader.scan (false, false) (lead ++ d) = some (lead ++ d, false, false) := by
    rw [scan_lead hlead, scan_number hd.plain]
    rfl
  have hlength : (lead ++ d).length ≠ 0 := by
    rw [ne_eq, length_eq_zero_iff, append_eq_nil_iff]
    exact fun h => hd.ne_nil h.2
  have hlast : csvReader.last (lead ++ d) = [trim (lead ++ d)] := if_pos hlength
  rw [lineText, Cell.written, Reader.fields_of_scan hscan, hlast, trim_lead hlead, trim_number hd]

end

/-- **A line with a number at its end** comes back exactly if its texts do. -/
theorem fields_iff (init : List Cell) (hinit : ∀ c ∈ init, c.WellFormed) (hd : IsNumber d)
    (hlead : IsLead lead) : csvReader.fields (false, false) [] (lineText lead (init ++ [.number d])) =
      (init ++ [Cell.number d]).map Cell.value ↔ ∀ c ∈ init, c.Ok := by
  induction init generalizing lead with
  | nil => exact iff_of_true (fields_singleton hlead hd) (by simp)
  | cons c cs ih =>
    rw [forall_mem_cons] at hinit ⊢
    rw [← ih hinit.2 (.inr rfl)]
    cases cs with
    | nil | cons c' cs => exact fields_cons_iff hlead hinit.1 _ _

theorem splitcsv_iff (hinit : ∀ c ∈ init, c.WellFormed) (hd : IsNumber d) :
    splitcsv (lineText [] (init ++ [.number d])) = (init ++ [Cell.number d]).map Cell.value ↔ ∀ c ∈ init, c.Ok := by
  rw [splitcsv_eq]
  exact fields_iff init hinit hd (.inl rfl)

end Btos.User.Btoslib.Csv
