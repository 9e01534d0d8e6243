import Mathlib.Algebra.Ring.Parity
import Btos.User.Cmd.Arrays

/-!
# Arrays are read as they were written, or not

The quote that begins an element counts as the first of a pair of quotes, so that an element of nothing but quotes,
the empty one too, comes back with one quote more; and blanks at the ends of an element are lost even between quotes.

* `scan_deparseElement`, `deparse_iff` — **the text of `deparse_array`** comes back exactly if every element has a
  character that is no quote, and no blanks at its ends;
* `args_iff` — **the value of `args`** comes back exactly if the arguments have such a form.
-/

namespace Btos.User.Cmd.Arrays

open Lib.Trim Lib.Fields List Function Bool

/-! ### Doubled quotes -/

theorem scan_doubled (e : List Char) (j : Bool) (rest : List Char) :
    arrayReader.scan (true, j) (e.flatMap double ++ rest) =
      (arrayReader.scan (true, j && e.all fun c => c = quote) rest).map fun r => (e ++ r.1, r.2) := by
  induction e generalizing j with
  | nil => simp
  | cons c cs ih =>
    by_cases hc : c = quote
    · have hdouble : (c :: cs).flatMap double ++ rest = quote :: quote :: (cs.flatMap double ++ rest) := by
        simp [double, hc]
      rw [hdouble]
      cases j with
      | true | false => simp [Reader.scan, move_arrayReader, arrayMove, ih, hc, comp_def]
    · have hdouble : (c :: cs).flatMap double ++ rest = c :: (cs.flatMap double ++ rest) := by
        simp [double, hc]
      rw [hdouble]
      simp [Reader.scan, move_arrayReader, arrayMove, ih, hc, comp_def]

/-- **An element that was written with doubled quotes.** -/
theorem scan_deparseElement (e : List Char) : ∃ j, arrayReader.scan (false, false) (deparseElement e) =
      some (e ++ (if e.all fun c => c = quote then [quote] else []), false, j) := by
  have hstart : arrayReader.scan (false, false) (deparseElement e) =
      arrayReader.scan (true, true) (e.flatMap double ++ [quote]) := by
    rw [deparseElement, replace_quote]
    rfl
  rw [hstart, scan_doubled]
  by_cases hall : (e.all fun c => c = quote) = true
  · rw [hall]
    exact ⟨false, rfl⟩
  · rw [eq_false_iff.mpr hall]
    exact ⟨true, by simp [Reader.scan, move_arrayReader, arrayMove]⟩

/-- An element is a text with a character that is no quote, and without blanks at its ends. -/
def DeparseOk (e : List Char) : Prop := (∃ c ∈ e, c ≠ quote) ∧ trim e = e

theorem trim_deparsed_iff (e : List Char) :
    trim (e ++ (if e.all fun c => c = quote then [quote] else [])) = e ↔ DeparseOk e := by
  by_cases hall : (e.all fun c => c = quote) = true
  · -- one quote too many
    rw [if_pos hall]
    simp only [all_eq_true, decide_eq_true_eq] at hall
    refine iff_of_false (fun h => ?_) (fun h => ?_)
    · have hcount := congrArg (count quote) h
      rw [count_trim (by decide) (by decide), count_append, count_singleton_self] at hcount
      omega
    · obtain ⟨⟨c, hc, hne⟩, -⟩ := h
      exact hne (hall c hc)
  · rw [if_neg hall, DeparseOk]
    have hsome : ∃ c ∈ e, c ≠ quote := by simpa using hall
    simp [hsome]

/-! ### One element after the other -/

theorem joinElements_singleton (text : List Char → List Char) (a : List Char) :
    joinElements text true [a] = text a := by
  simp [joinElements]

theorem fields_join_nil (text : List Char → List Char) :
    arrayReader.fields (false, false) [] (joinElements text true []) = [] := by
  simp [joinElements, Reader.fields, arrayReader, trim, trimchar, strip]

/-- **`deparse_array` and `parse_array`.** -/
theorem deparse_iff (a : List (List Char)) : parseArray (deparseArray a) = a ↔ ∀ e ∈ a, DeparseOk e := by
  rw [deparseArray, parseArray_eq]
  induction a with
  | nil => simp [fields_join_nil]
  | cons e as ih =>
    obtain ⟨j, hscan⟩ := scan_deparseElement e
    have hok := trim_deparsed_iff e
    generalize e ++ (if e.all fun c => c = quote then [quote] else []) = w at hscan hok
    cases as with
    | nil =>
      rw [joinElements_singleton, Reader.fields_of_scan hscan, forall_mem_singleton, ← hok]
      show (if trim w = [] then [] else [trim w]) = [e] ↔ _
      constructor
      · intro h
        split at h
        · cases h
        · exact (cons.inj h).1
      · intro h
        -- an element with a character is not empty
        obtain ⟨⟨c, hc, -⟩, -⟩ := hok.mp h
        rw [h, if_neg (ne_nil_of_mem hc)]
    | cons b as =>
      have hfields := Reader.fields_sep hscan (move_sep_iff.mpr rfl) (joinElements deparseElement true (b :: as))
      rw [forall_mem_cons, ← hok, ← ih]
      exact (congrArg (· = _) hfields).to_iff.trans cons_eq_cons

/-! ### Quotes that are not doubled -/

theorem scan_parity (h : arrayReader.scan (q, j) l = some (w, q', j')) :
    q' = (q ^^ decide (¬ Even (l.count quote))) := by
  induction l generalizing q j w with
  | nil =>
    cases h
    simp
  | cons c cs ih =>
    by_cases hc : c = quote
    · subst hc
      have hnext : q' = (!q ^^ decide (¬ Even (cs.count quote))) := by
        cases j with
        | true =>
          obtain ⟨w', -, hr⟩ := scan_quote_true h
          exact ih hr
        | false =>
          exact ih h
      rw [hnext]
      by_cases heven : Even (cs.count quote) <;> simp [heven, Nat.even_add_one]
    · obtain ⟨w', -, hr, -⟩ := scan_cons hc h
      rw [count_cons_of_ne hc]
      exact ih hr

/-- **Quotes are lost**: before the last quote of an element, no more of them stay than there are, and all of them only
if they are at the end.  Behind a quote, there can be one more, if nothing follows. -/
theorem scan_count (y : List Char) : ∀ (q : Bool) {w : List Char} {q' j' : Bool},
    (arrayReader.scan (q, false) (y ++ [quote]) = some (w, q', j') →
      w.count quote ≤ y.count quote ∧ (w.count quote = y.count quote → quote ∉ y.dropLast ∧ w = y)) ∧
    (arrayReader.scan (q, true) (y ++ [quote]) = some (w, q', j') →
      w.count quote ≤ y.count quote + 1 ∧ (w.count quote = y.count quote + 1 → y = [] ∧ w = [quote])) := by
  induction y with
  | nil =>
    intro q w q' j'
    constructor
    · intro h
      cases h
      simp
    · intro h
      cases h
      simp
  | cons c cs ih =>
    intro q w q' j'
    by_cases hc : c = quote
    · subst hc
      constructor
      · intro h
        obtain ⟨hle, heq⟩ := (ih (!q)).2 h
        rw [count_cons_self]
        refine ⟨hle, fun hcount => ?_⟩
        obtain ⟨rfl, rfl⟩ := heq hcount
        simp
      · intro h
        obtain ⟨w', rfl, hr⟩ := scan_quote_true h
        have hle := ((ih (!q)).1 hr).1
        rw [count_cons_self, count_cons_self]
        omega
    · constructor
      · intro h
        obtain ⟨w', rfl, hr, -⟩ := scan_cons hc h
        obtain ⟨hle, heq⟩ := (ih q).1 hr
        rw [count_cons_of_ne hc, count_cons_of_ne hc]
        refine ⟨hle, fun hcount => ?_⟩
        obtain ⟨hnot, hw⟩ := heq hcount
        refine ⟨?_, by rw [hw]⟩
        cases cs with
        | nil => simp
        | cons d cs => simpa [Ne.symm hc] using hnot
      · intro h
        obtain ⟨w', rfl, hr, -⟩ := scan_cons hc h
        have hle := ((ih q).1 hr).1
        rw [count_cons_of_ne hc, count_cons_of_ne hc]
        omega

/-- **The inside of an element** that has quotes only at its end: commas need open quotes. -/
theorem scan_inside_iff (hy : quote ∉ y.dropLast) (q : Bool) :
    (∃ q' j', arrayReader.scan (q, false) (y ++ [quote]) = some (y, q', j')) ↔ (q = true ∨ ',' ∉ y) := by
  induction y with
  | nil => exact iff_of_true ⟨!q, true, rfl⟩ (.inr not_mem_nil)
  | cons c cs ih =>
    by_cases hc : c = quote
    · -- nothing follows
      subst hc
      have hcs : cs = [] := by
        cases cs with
        | nil => rfl
        | cons d cs => simp at hy
      subst hcs
      refine iff_of_true ⟨!!q, false, rfl⟩ (.inr ?_)
      decide
    · have hcs : quote ∉ cs.dropLast := by
        cases cs with
        | nil => simp
        | cons d cs => simp_all
      constructor
      · rintro ⟨q', j', h⟩
        obtain ⟨w', hw, hr, hsplit⟩ := scan_cons hc h
        cases hw
        rcases (ih hcs).mp ⟨q', j', hr⟩ with hq | hcomma
        · exact .inl hq
        · refine hsplit.imp id fun hne => ?_
          simp [hcomma, Ne.symm hne]
      · intro h
        have hsplit : q = true ∨ c ≠ ',' := h.imp id fun hnot heq => hnot (by simp [heq])
        obtain ⟨q', j', hr⟩ := (ih hcs).mpr (h.imp id fun hnot => fun hmem => hnot (mem_cons_of_mem _ hmem))
        exact ⟨q', j', by simp [Reader.scan, move_arrayReader, arrayMove, hc, hsplit, hr]⟩

/-- An argument that stays as it is: quotes only at its ends, and no comma behind a quote at its beginning. -/
structure ArgOk (e : List Char) : Prop where
  ne_nil : e ≠ []
  trimmed : trim e = e
  quotes : quote ∉ e.tail.dropLast
  commas : e.head? = some quote → ',' ∉ e

/-- **One argument.** -/
theorem argScan_iff (e : List Char) :
    (∃ w q j, arrayReader.scan (false, false) (argElement e) = some (w, q, j) ∧ trim w = e) ↔ ArgOk e := by
  have hstart : arrayReader.scan (false, false) (argElement e) = arrayReader.scan (true, true) (e ++ [quote]) := rfl
  rw [hstart]
  cases e with
  | nil =>
    -- two quotes are read as one
    refine iff_of_false ?_ fun h => h.ne_nil rfl
    rintro ⟨w, q, j, h, htrim⟩
    cases h
    exact absurd htrim (by decide)
  | cons c cs =>
    by_cases hc : c = quote
    · subst hc
      constructor
      · rintro ⟨w, q, j, h, htrim⟩
        obtain ⟨w', rfl, hr⟩ := scan_quote_true h
        have hcount := congrArg (count quote) htrim
        rw [count_trim (by decide) (by decide), count_cons_self, count_cons_self,
          Nat.add_right_cancel_iff] at hcount
        obtain ⟨hquotes, rfl⟩ := ((scan_count cs false).1 hr).2 hcount
        refine ⟨by simp, htrim, hquotes, fun _ => ?_⟩
        have hcomma := ((scan_inside_iff hquotes false).mp ⟨q, j, hr⟩).resolve_left (by decide)
        simpa [quote] using hcomma
      · intro h
        have hcomma : ',' ∉ cs := fun hmem => h.commas rfl (mem_cons_of_mem _ hmem)
        have hquotes : quote ∉ cs.dropLast := h.quotes
        obtain ⟨q', j', hr⟩ := (scan_inside_iff hquotes false).mpr (.inr hcomma)
        exact ⟨_, q', j', by simp [Reader.scan, move_arrayReader, arrayMove, hr], h.trimmed⟩
    · constructor
      · rintro ⟨w, q, j, h, htrim⟩
        obtain ⟨w', rfl, hr, -⟩ := scan_cons hc h
        have hcount := congrArg (count quote) htrim
        rw [count_trim (by decide) (by decide), count_cons_of_ne hc, count_cons_of_ne hc] at hcount
        obtain ⟨hquotes, rfl⟩ := ((scan_count cs true).1 hr).2 hcount
        exact ⟨by simp, htrim, hquotes, fun h => absurd (Option.some.inj h) hc⟩
      · intro h
        have hquotes : quote ∉ cs.dropLast := h.quotes
        obtain ⟨q', j', hr⟩ := (scan_inside_iff hquotes true).mpr (.inl rfl)
        exact ⟨_, q', j', by simp [Reader.scan, move_arrayReader, arrayMove, hc, hr], h.trimmed⟩

/-! ### Arguments -/

theorem argScan_closed_iff (e : List Char) :
    (∃ w j, arrayReader.scan (false, false) (argElement e) = some (w, false, j) ∧ trim w = e) ↔
      ArgOk e ∧ Even (e.count quote) := by
  have hparity : ∀ {w q j}, arrayReader.scan (false, false) (argElement e) = some (w, q, j) →
      q = decide (¬ Even (e.count quote)) := by
    intro w q j h
    have hcount : (argElement e).count quote = e.count quote + 2 := by
      simp [argElement, quote]
    have heven : Even (e.count quote + 2) ↔ Even (e.count quote) := by
      simp [Nat.even_add]
    have hq := scan_parity h
    simp only [hcount, heven, false_xor] at hq
    exact hq
  rw [← argScan_iff]
  constructor
  · rintro ⟨w, j, h, htrim⟩
    refine ⟨⟨w, false, j, h, htrim⟩, ?_⟩
    simpa using hparity h
  · rintro ⟨⟨w, q, j, h, htrim⟩, heven⟩
    have hq : q = false := by
      rw [hparity h]
      simpa using heven
    exact ⟨w, j, hq ▸ h, htrim⟩

theorem count_argElement (e : List Char) : e.count ',' = (argElement e).count ',' := by
  simp [argElement, quote]

/-- **The first of several arguments** comes back exactly if it has the form, and the others come back. -/
theorem fields_args_cons_iff (e b : List Char) (as : List (List Char)) :
    arrayReader.fields (false, false) [] (joinElements argElement true (e :: b :: as)) = e :: b :: as ↔
      (ArgOk e ∧ Even (e.count quote)) ∧
        arrayReader.fields (false, false) [] (joinElements argElement true (b :: as)) = b :: as := by
  have hfields := @Reader.fields_sep_iff _ _ _ arrayReader _ _ (joinElements argElement true (b :: as)) (b :: as)
    (count_argElement e)
  rw [← argScan_closed_iff]
  refine hfields.trans (and_congr ?_ Iff.rfl)
  simp only [show arrayReader.sep = ',' from rfl, show arrayReader.start = (false, false) from rfl, move_sep_iff]
  constructor
  · rintro ⟨w, ⟨_, j⟩, hscan, rfl, htrim⟩
    exact ⟨w, j, hscan, htrim⟩
  · rintro ⟨w, j, hscan, htrim⟩
    exact ⟨w, _, hscan, rfl, htrim⟩

/-- **The last argument.** -/
theorem fields_args_singleton_iff (e : List Char) :
    arrayReader.fields (false, false) [] (joinElements argElement true [e]) = [e] ↔ ArgOk e := by
  rw [joinElements_singleton, ← argScan_iff]
  refine (Reader.fields_last_iff (count_argElement e)).trans ?_
  have hlast : ∀ w, arrayReader.last w = if trim w = [] then [] else [trim w] := fun _ => rfl
  simp only [hlast]
  constructor
  · rintro ⟨w, ⟨q, j⟩, hscan, h⟩
    split at h
    · cases h
    · exact ⟨w, q, j, hscan, (cons.inj h).1⟩
  · rintro ⟨w, q, j, hscan, htrim⟩
    refine ⟨w, _, hscan, ?_⟩
    rw [htrim, if_neg]
    rintro rfl
    exact ((argScan_iff []).mp ⟨w, q, j, hscan, htrim⟩).ne_nil rfl

/-- The arguments that come back: each of the form above, and but for the last with its quotes closed. -/
def ArgsOk (args : List (List Char)) : Prop := (∀ e ∈ args, ArgOk e) ∧ ∀ e ∈ args.dropLast, Even (e.count quote)

/-- **The value of `args` and `parse_array`.** -/
theorem args_iff (args : List (List Char)) : parseArray (argsValue args) = args ↔ ArgsOk args := by
  rw [argsValue, parseArray_eq]
  induction args with
  | nil => simp [fields_join_nil, ArgsOk]
  | cons e as ih =>
    cases as with
    | nil =>
      rw [fields_args_singleton_iff]
      simp [ArgsOk]
    | cons b as =>
      rw [fields_args_cons_iff, ih]
      simp only [ArgsOk, dropLast_cons_cons, forall_mem_cons]
      tauto

/-- **Arrays are read as they were written** by both writers, exactly if all elements have the form. -/
theorem array_roundTrip_iff (a : List (List Char)) :
    (parseArray (deparseArray a) = a ∧ parseArray (argsValue a) = a) ↔ (∀ e ∈ a, DeparseOk e) ∧ ArgsOk a :=
  and_congr (deparse_iff a) (args_iff a)

/-- An array of one empty text comes back with a quote, and an argument with a quote in the middle without it. -/
theorem array_roundTrip_fails :
    (parseArray (deparseArray [[]]) = [['"']] ∧ parseArray (deparseArray [[]]) ≠ [[]]) ∧
      parseArray (argsValue [['a', '"', 'b']]) = [['a', 'b']] ∧
      parseArray (argsValue [['a', '"', 'b']]) ≠ [['a', '"', 'b']] := by
  decide

end Btos.User.Cmd.Arrays
