import Mathlib.Tactic.Common
import Mathlib.Algebra.Group.Nat.Defs

/-!
# Variables in a text

`Interpolate` of `user/libs/btoslib/envvars.cpp` copies a text and replaces what stands between two `$` by the value
of a variable; a backslash is to take the meaning of the next character away.  It is one pass with two flags.

* `IState`, `interpolateStep`, `interpolate` — **the pass**.  Outside of a variable, the branch for an escape is not
  left before the one for other characters: the backslash is copied, the character behind it twice, and an escaped
  `$` begins a variable;
* `readSection`, `pieces`, `expected` — **how the text is to be read**, without flags: escape pairs, sections and
  other characters;
* `interpolate_iff` — **the pass gives the expected text exactly if** no escape pair stands outside of a section and
  every `$` that begins a section is closed by another.
-/

namespace Btos.User.Btoslib

open List Option

/-! ### The pass -/

def delim : Char := '$'

def esc : Char := '\\'

structure IState where
  out : List Char
  varname : List Char
  invar : Bool
  inesc : Bool
  deriving DecidableEq, Repr

def interpolateStep (lookup : List Char → List Char) (s : IState) (c : Char) : IState :=
  if s.invar then
    if s.inesc then { s with varname := s.varname ++ [c], inesc := false }
    else if c = esc then { s with inesc := true }
    else if c ≠ delim then { s with varname := s.varname ++ [c] }
    else { s with invar := false, out := s.out ++ lookup s.varname, varname := [] }
  else
    let s :=
      if s.inesc then { s with out := s.out ++ [c], inesc := false }
      else if c = esc then { s with inesc := true }
      else s
    -- there is no `else` before this `if`
    if c ≠ delim then { s with out := s.out ++ [c] } else { s with invar := true }

def interpolate (tmpl : List Char) (lookup : List Char → List Char) : List Char :=
  (tmpl.foldl (interpolateStep lookup) ⟨[], [], false, false⟩).out

/-! ### How a text is to be read -/

/-- The enclosed text up to the next `$` that is not escaped, without its escape characters, and what follows. -/
def readSection : List Char → Option (List Char × List Char)
  | [] => none
  | c :: cs =>
      if c = esc then
        match cs with
        | [] => none
        | c' :: cs' => (readSection cs').map fun r => (c' :: r.1, r.2)
      else if c = delim then some ([], cs)
      else (readSection cs).map fun r => (c :: r.1, r.2)

variable {c : Char} {cs : List Char}

theorem length_readSection (h : readSection cs = some r) : r.2.length < cs.length := by
  fun_induction readSection cs generalizing r with
  | case1 | case2 => cases h
  | case3 c' cs' ih | case5 c cs hesc hdelim ih =>
    obtain ⟨r', hr', rfl⟩ := map_eq_some_iff.1 h
    have hlt := ih hr'
    simp only [length_cons]
    omega
  | case4 cs hne =>
    cases h
    simp

/-- An escape pair, a section between two `$`, or another character. -/
inductive Piece where
  | escaped (c : Char)
  | var (name : List Char)
  | plain (c : Char)
  deriving DecidableEq, Repr

def pieces : List Char → List Piece
  | [] => []
  | c :: cs =>
      if c = esc then
        match cs with
        | [] => [.plain c]
        | c' :: cs' => .escaped c' :: pieces cs'
      else if c = delim then
        match _h : readSection cs with
        | none => .plain c :: pieces cs
        | some r => .var r.1 :: pieces r.2
      else .plain c :: pieces cs
termination_by cs => cs.length
decreasing_by
  all_goals simp only [length_cons]
  · omega
  · omega
  · have hlt := length_readSection _h
    omega
  · omega

def Piece.text (lookup : List Char → List Char) : Piece → List Char
  | .escaped c => [c]
  | .var name => lookup name
  | .plain c => [c]

def expected (tmpl : List Char) (lookup : List Char → List Char) : List Char :=
  (pieces tmpl).flatMap (Piece.text lookup)

/-- A section or a character that stands for itself: neither an escape pair nor a `$` that nothing closes. -/
def Piece.isCopied : Piece → Bool
  | .escaped _ => false
  | .var _ => true
  | .plain c => c ≠ delim

/-! ### What the pass does -/

section

variable {lookup : List Char → List Char}

theorem interpolateStep_append (p : List Char) (s : IState) (c : Char) :
    interpolateStep lookup { s with out := p ++ s.out } c =
      { interpolateStep lookup s c with out := p ++ (interpolateStep lookup s c).out } := by
  obtain ⟨out, varname, invar, inesc⟩ := s
  cases invar <;> cases inesc <;> simp only [interpolateStep, Bool.false_eq_true, ite_true, ite_false] <;>
    split_ifs <;> simp only [append_assoc]

theorem foldl_append_out (p : List Char) (cs : List Char) (s : IState) :
    (cs.foldl (interpolateStep lookup) { s with out := p ++ s.out }).out =
      p ++ (cs.foldl (interpolateStep lookup) s).out := by
  induction cs generalizing s with
  | nil => rfl
  | cons c cs ih => rw [foldl_cons, foldl_cons, interpolateStep_append, ih]

theorem foldl_outside (p cs : List Char) :
    (cs.foldl (interpolateStep lookup) ⟨p, [], false, false⟩).out = p ++ interpolate cs lookup := by
  have h := @foldl_append_out lookup p cs ⟨[], [], false, false⟩
  rw [append_nil] at h
  exact h

/-- **Inside of a variable**: it is replaced, or lost at the end of the text. -/
theorem foldl_inside (p name cs : List Char) : (cs.foldl (interpolateStep lookup) ⟨p, name, true, false⟩).out =
      match readSection cs with
      | none => p
      | some r => p ++ lookup (name ++ r.1) ++ interpolate r.2 lookup := by
  fun_induction readSection cs generalizing name with
  | case1 | case2 => rfl
  | case3 c' cs' ih =>
    have hstep : interpolateStep lookup (interpolateStep lookup ⟨p, name, true, false⟩ esc) c' =
        ⟨p, name ++ [c'], true, false⟩ := rfl
    rw [foldl_cons, foldl_cons, hstep, ih]
    cases readSection cs' with
    | none => rfl
    | some r => simp
  | case4 cs hne =>
    have hstep : interpolateStep lookup ⟨p, name, true, false⟩ delim = ⟨p ++ lookup name, [], false, false⟩ := rfl
    rw [foldl_cons, hstep, foldl_outside]
    simp
  | case5 c cs hesc hdelim ih =>
    have hstep : interpolateStep lookup ⟨p, name, true, false⟩ c = ⟨p, name ++ [c], true, false⟩ := by
      simp [interpolateStep, hesc, hdelim]
    rw [foldl_cons, hstep, ih]
    cases readSection cs with
    | none => rfl
    | some r => simp

theorem interpolate_delim (cs : List Char) : interpolate (delim :: cs) lookup =
      match readSection cs with
      | none => []
      | some r => lookup r.1 ++ interpolate r.2 lookup := by
  have hstep : interpolateStep lookup ⟨[], [], false, false⟩ delim = ⟨[], [], true, false⟩ := rfl
  rw [interpolate, foldl_cons, hstep, foldl_inside]
  cases readSection cs <;> rfl

theorem interpolate_plain (hesc : c ≠ esc) (hdelim : c ≠ delim) (cs : List Char) :
    interpolate (c :: cs) lookup = c :: interpolate cs lookup := by
  have hstep : interpolateStep lookup ⟨[], [], false, false⟩ c = ⟨[c], [], false, false⟩ := by
    simp [interpolateStep, hesc, hdelim]
  rw [interpolate, foldl_cons, hstep, foldl_outside]
  rfl

/-- **An escape pair outside of a variable**: three characters. -/
theorem interpolate_esc (hdelim : c ≠ delim) (cs : List Char) :
    interpolate (esc :: c :: cs) lookup = esc :: c :: c :: interpolate cs lookup := by
  have hstep : interpolateStep lookup (interpolateStep lookup ⟨[], [], false, false⟩ esc) c =
      ⟨[esc, c, c], [], false, false⟩ := by
    have hesc : esc ≠ delim := by decide
    simp [interpolateStep, hdelim, hesc]
  rw [interpolate, foldl_cons, foldl_cons, hstep, foldl_outside]
  rfl

/-- **An escaped `$`** is written with its backslash, and begins a variable. -/
theorem interpolate_esc_delim (cs : List Char) :
    ∃ l, interpolate (esc :: delim :: cs) lookup = esc :: delim :: l := by
  have hstep : interpolateStep lookup (interpolateStep lookup ⟨[], [], false, false⟩ esc) delim =
      ⟨[esc, delim], [], true, false⟩ := rfl
  rw [interpolate, foldl_cons, foldl_cons, hstep, foldl_inside]
  cases readSection cs with
  | none => exact ⟨[], rfl⟩
  | some r => exact ⟨_, rfl⟩

/-! ### When the text is as expected -/

theorem replicate_append_cancel (a : Char) (n : ℕ) (l x y : List Char)
    (h : replicate n a ++ (l ++ x) = l ++ y) : replicate n a ++ x = y := by
  induction l with
  | nil => exact h
  | cons c l ih =>
    apply ih
    cases n with
    | zero => exact (cons.inj h).2
    | succ n =>
      obtain ⟨rfl, hrest⟩ := cons.inj h
      rw [replicate_succ', append_assoc]
      exact hrest

/-- **No text behind backslashes too many is as expected**, and none but one of copied pieces without them. -/
theorem replicate_interpolate_iff (n : ℕ) (cs : List Char) :
    replicate n esc ++ interpolate cs lookup = expected cs lookup ↔
      n = 0 ∧ ∀ p ∈ pieces cs, p.isCopied = true := by
  unfold expected
  fun_induction pieces cs generalizing n with
  | case1 => simp [interpolate]
  | case2 =>
    have hlone : interpolate [esc] lookup = [esc] := rfl
    rw [hlone]
    simp [Piece.text, Piece.isCopied, esc, delim]
  | case3 c cs ih =>
    rw [flatMap_cons]
    refine iff_of_false ?_ fun h => by simpa [Piece.isCopied] using h.2 (.escaped c) mem_cons_self
    by_cases hdelim : c = delim
    · -- the text begins with a backslash where `$` is expected
      subst hdelim
      obtain ⟨l, hl⟩ := @interpolate_esc_delim lookup cs
      rw [hl]
      cases n <;> simp [Piece.text, esc, delim, replicate_succ]
    · rw [interpolate_esc hdelim]
      intro h
      by_cases hesc : c = esc
      · -- two more backslashes than there should be
        subst hesc
        have hmore : replicate n esc ++ esc :: esc :: esc :: interpolate cs lookup =
            esc :: (replicate (n + 2) esc ++ interpolate cs lookup) := by
          rw [← cons_append, ← replicate_succ]
          simp [replicate_succ']
        rw [hmore] at h
        have hzero := ((ih (n + 2)).mp (cons.inj h).2).1
        omega
      · cases n with
        | zero | succ n => exact hesc (cons.inj h).1.symm
  | case4 cs hnone _ ih =>
    rw [interpolate_delim, hnone]
    cases n <;> simp [Piece.text, Piece.isCopied, esc, delim, replicate_succ]
  | case5 cs r hsome _ ih =>
    rw [interpolate_delim, hsome]
    have hcopied : (Piece.var r.1).isCopied = true := rfl
    simp only [flatMap_cons, Piece.text, forall_mem_cons, hcopied, true_and]
    rw [← ih n]
    constructor
    · exact replicate_append_cancel esc n _ _ _
    · intro h
      -- without backslashes in front
      obtain ⟨rfl, -⟩ := (ih n).mp h
      rw [← h]
      rfl
  | case6 c cs hesc hdelim ih =>
    rw [interpolate_plain hesc hdelim]
    have hcopied : (Piece.plain c).isCopied = true := by simp [Piece.isCopied, hdelim]
    simp only [flatMap_cons, Piece.text, forall_mem_cons, hcopied, true_and]
    cases n with
    | zero =>
      have hcancel := ih 0
      simp only [replicate_zero, nil_append, true_and] at hcancel ⊢
      rw [← hcancel]
      simp
    | succ n => simp [replicate_succ, Ne.symm hesc]

end

/-- **`Interpolate` gives the expected text exactly if** no escape pair is outside of a section and every section is
closed. -/
theorem interpolate_iff (tmpl : List Char) (lookup : List Char → List Char) :
    interpolate tmpl lookup = expected tmpl lookup ↔ ∀ p ∈ pieces tmpl, p.isCopied = true := by
  have h := @replicate_interpolate_iff lookup 0 tmpl
  simpa using h

/-- An escaped letter is written twice, with its backslash. -/
theorem interpolate_escaped_letter : interpolate ['\\', 'n'] (fun _ => []) = ['\\', 'n', 'n'] ∧
    interpolate ['\\', 'n'] (fun _ => []) ≠ expected ['\\', 'n'] (fun _ => []) := by
  have hexpected : expected ['\\', 'n'] (fun _ => []) = ['n'] := by
    simp [expected, pieces, Piece.text, esc]
  rw [hexpected]
  decide

end Btos.User.Btoslib
