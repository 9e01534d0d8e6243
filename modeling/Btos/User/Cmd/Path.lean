import Mathlib.Tactic.Common
import Mathlib.Algebra.Order.Ring.Nat

/-!
# Paths as lists of segments

`user/libs/cmd/path.cpp`.  A path is read character by character into a list of sections, the first of which is
the drive with its colon; `.` and `..` are resolved on the way.

* `Sections.colon`, `Sections.slash`, `pathLoop` — **the loop**;
* `canonical_parsePath`, `parsePath_of_canonical` — **what is returned is canonical, and canonical paths are
  returned as they are**.
-/

namespace Btos.User.Cmd

open List Option

/-! ### The loop -/

def isAbsolute : List Char → Bool
  | [] => false
  | c :: cs => if c = '/' then false else if c = ':' then true else isAbsolute cs

/-- `get_drive`: up to the first colon. -/
def getDrive : List Char → List Char
  | [] => []
  | c :: cs => c :: if c = ':' then [] else getDrive cs

def joined (cwd path : List Char) : List Char :=
  if isAbsolute path then path
  else if path.head? = some '/' then getDrive cwd ++ path
  else cwd ++ ['/'] ++ path

/-- The variables of `parse_path`. -/
structure Sections where
  sections : List (List Char)
  current : List Char
  hasDrive : Bool
  deriving DecidableEq, Repr

/-- A colon ends the drive; there is only one. -/
def Sections.colon (st : Sections) : Option Sections :=
  if !st.hasDrive && st.current ≠ [] then
    some ⟨st.sections ++ [st.current ++ [':']], [], true⟩
  else none

def Sections.slash (st : Sections) : Option Sections :=
  if st.current = ['.', '.'] then
    if st.sections.length > 1 then some { st with sections := st.sections.dropLast, current := [] } else none
  else if st.current = ['.'] then some { st with current := [] }
  else if st.current ≠ [] then some { st with sections := st.sections ++ [st.current], current := [] }
  else some st

def pathStep (c : Char) (st : Sections) : Option Sections :=
  if c = ':' then st.colon
  else if c = '/' then st.slash
  else some { st with current := st.current ++ [c] }

def pathLoop : List Char → Sections → Option Sections
  | [], st => some st
  | c :: cs, st => (pathStep c st).bind (pathLoop cs)

/-- The sections, each with a slash; the last slash goes if there are segments. -/
def render (sections : List (List Char)) : List Char :=
  let result := sections.flatMap fun s => s ++ ['/']
  if sections.length > 1 then result.dropLast else result

/-- **`parse_path`**. -/
def parsePath (cwd path : List Char) : List Char :=
  match (pathLoop (joined cwd path) ⟨[], [], false⟩).bind Sections.slash with
  | none => []
  | some st => render st.sections

/-! ### Paths with a drive -/

def Plain (s : List Char) : Prop := '/' ∉ s ∧ ':' ∉ s

structure GoodSegment (s : List Char) : Prop where
  ne_nil : s ≠ []
  ne_dot : s ≠ ['.']
  ne_dotdot : s ≠ ['.', '.']
  plain : Plain s

def Canonical (path : List Char) : Prop :=
  ∃ name segs, path = render ((name ++ [':']) :: segs) ∧ name ≠ [] ∧ Plain name ∧ ∀ s ∈ segs, GoodSegment s

/-- **A current directory** `NAME:/...`. -/
def IsDirectory (cwd : List Char) : Prop :=
  ∃ name rest, cwd = name ++ ':' :: '/' :: rest ∧ name ≠ [] ∧ Plain name

theorem isAbsolute_iff (path : List Char) :
    isAbsolute path = true ↔ ∃ name rest, path = name ++ ':' :: rest ∧ Plain name := by
  induction path with
  | nil => simp [isAbsolute]
  | cons c cs ih =>
    by_cases hslash : c = '/'
    · simp only [isAbsolute, hslash, ite_true, Bool.false_eq_true, false_iff]
      rintro ⟨name, rest, heq, hplain⟩
      cases name with
      | nil => simp at heq
      | cons d name =>
        simp only [cons_append, List.cons.injEq] at heq
        exact hplain.1 (heq.1 ▸ mem_cons_self)
    · by_cases hcolon : c = ':'
      · simp only [isAbsolute, hcolon, ite_true]
        exact iff_of_true (by decide) ⟨[], cs, rfl, by simp [Plain]⟩
      · simp only [isAbsolute, hslash, hcolon, ite_false, ih]
        constructor
        · rintro ⟨name, rest, rfl, hplain⟩
          refine ⟨c :: name, rest, rfl, ?_, ?_⟩
          · simp [Ne.symm hslash, hplain.1]
          · simp [Ne.symm hcolon, hplain.2]
        · rintro ⟨name, rest, heq, hplain⟩
          cases name with
          | nil =>
            simp only [nil_append, List.cons.injEq] at heq
            exact absurd heq.1 hcolon
          | cons d name =>
            simp only [cons_append, List.cons.injEq] at heq
            simp only [Plain, mem_cons, not_or] at hplain
            exact ⟨name, rest, heq.2, hplain.1.2, hplain.2.2⟩

theorem getDrive_of_plain (h : Plain name) (rest : List Char) :
    getDrive (name ++ ':' :: rest) = name ++ [':'] := by
  induction name with
  | nil => simp [getDrive]
  | cons c name ih =>
    simp only [Plain, mem_cons, not_or] at h
    simp [getDrive, Ne.symm h.2.1, ih ⟨h.1.2, h.2.2⟩]

/-- **What is parsed starts with a drive.** -/
theorem exists_joined (h : IsDirectory cwd) (path : List Char) :
    ∃ name rest, joined cwd path = name ++ ':' :: rest ∧ Plain name := by
  obtain ⟨name, rest, rfl, -, hplain⟩ := h
  simp only [joined]
  split
  · rename_i habs
    exact (isAbsolute_iff path).mp habs
  · split
    · rw [getDrive_of_plain hplain]
      exact ⟨name, path, by simp, hplain⟩
    · exact ⟨name, '/' :: rest ++ ['/'] ++ path, by simp, hplain⟩

/-! ### The loop behind the drive -/

theorem pathLoop_plain (h : Plain s) (rest : List Char) (st : Sections) :
    pathLoop (s ++ rest) st = pathLoop rest { st with current := st.current ++ s } := by
  induction s generalizing st with
  | nil => simp
  | cons c s ih =>
    simp only [Plain, mem_cons, not_or] at h
    have hstep : pathStep c st = some { st with current := st.current ++ [c] } := by
      simp [pathStep, Ne.symm h.1.1, Ne.symm h.2.1]
    rw [cons_append, pathLoop, hstep, bind_some, ih ⟨h.1.2, h.2.2⟩]
    simp

theorem pathLoop_drive (hplain : Plain name) (hne : name ≠ []) (rest : List Char) :
    pathLoop (name ++ ':' :: rest) ⟨[], [], false⟩ = pathLoop rest ⟨[name ++ [':']], [], true⟩ := by
  rw [pathLoop_plain hplain]
  simp [pathLoop, pathStep, Sections.colon, hne]

def behind (drive : List Char) (segs : List (List Char)) (cur : List Char) : Sections :=
  ⟨drive :: segs, cur, true⟩

/-- What the end of a segment does to the segments. -/
def endSegment (segs : List (List Char)) (cur : List Char) : Option (List (List Char)) :=
  if cur = ['.', '.'] then if segs = [] then none else some segs.dropLast
  else if cur = ['.'] ∨ cur = [] then some segs
  else some (segs ++ [cur])

theorem slash_behind (drive : List Char) (segs : List (List Char)) (cur : List Char) :
    (behind drive segs cur).slash = (endSegment segs cur).map fun segs' => behind drive segs' [] := by
  simp only [behind, Sections.slash, endSegment]
  by_cases hdd : cur = ['.', '.']
  · cases segs with
    | nil | cons s segs => simp [hdd]
  · by_cases hd : cur = ['.']
    · simp [hd]
    · by_cases hn : cur = []
      · simp [hn]
      · simp [hdd, hd, hn]

/-- **The segments stay good.** -/
theorem good_endSegment (hsegs : ∀ s ∈ segs, GoodSegment s)
    (hcur : Plain cur) (h : endSegment segs cur = some segs') : ∀ s ∈ segs', GoodSegment s := by
  simp only [endSegment] at h
  split at h
  · split at h
    · cases h
    · cases h
      intro s hs
      exact hsegs s (dropLast_subset _ hs)
  · rename_i hdd
    split at h
    · cases h
      exact hsegs
    · rename_i hother
      cases h
      rw [not_or] at hother
      intro s hs
      rcases mem_append.mp hs with hs | hs
      · exact hsegs s hs
      · rw [mem_singleton] at hs
        subst hs
        exact ⟨hother.2, hother.1, hdd, hcur⟩

theorem endSegment_good (segs : List (List Char)) (h : GoodSegment cur) :
    endSegment segs cur = some (segs ++ [cur]) := by
  simp [endSegment, h.ne_dotdot, h.ne_dot, h.ne_nil]

@[simp] theorem endSegment_nil (segs : List (List Char)) : endSegment segs [] = some segs := by
  simp [endSegment]

theorem pathStep_behind (drive : List Char) (segs : List (List Char)) (cur : List Char) (c : Char) :
    pathStep c (behind drive segs cur) =
      if c = ':' then none
      else if c = '/' then (endSegment segs cur).map fun segs' => behind drive segs' []
      else some (behind drive segs (cur ++ [c])) := by
  rw [← slash_behind]
  rfl

/-- **The whole loop behind the drive**: the drive stays, and the segments are good. -/
theorem pathLoop_behind (rest : List Char) :
    ∀ {segs : List (List Char)} {cur : List Char} {st : Sections}, (∀ s ∈ segs, GoodSegment s) → Plain cur →
      pathLoop rest (behind drive segs cur) = some st →
      ∃ segs' cur', st = behind drive segs' cur' ∧ (∀ s ∈ segs', GoodSegment s) ∧ Plain cur' := by
  induction rest with
  | nil =>
    intro segs cur st hsegs hcur h
    cases h
    exact ⟨segs, cur, rfl, hsegs, hcur⟩
  | cons c rest ih =>
    intro segs cur st hsegs hcur h
    rw [pathLoop, pathStep_behind] at h
    by_cases hcolon : c = ':'
    · simp [hcolon] at h
    · by_cases hslash : c = '/'
      · rw [if_neg hcolon, if_pos hslash] at h
        obtain ⟨st', hst', h⟩ := bind_eq_some_iff.mp h
        obtain ⟨segs', hend, rfl⟩ := map_eq_some_iff.mp hst'
        exact ih (good_endSegment hsegs hcur hend) (by simp [Plain]) h
      · rw [if_neg hcolon, if_neg hslash] at h
        apply ih hsegs _ h
        exact ⟨by simp [hcur.1, Ne.symm hslash], by simp [hcur.2, Ne.symm hcolon]⟩

/-- **What is returned, if something is**: the drive and good segments. -/
theorem parsePath_cases (hjoined : joined cwd path = name ++ ':' :: rest)
    (hplain : Plain name) (hne : parsePath cwd path ≠ []) :
    name ≠ [] ∧ ∃ segs cur segs', pathLoop rest (behind (name ++ [':']) [] []) =
        some (behind (name ++ [':']) segs cur) ∧ endSegment segs cur = some segs' ∧
      (∀ s ∈ segs', GoodSegment s) ∧ parsePath cwd path = render ((name ++ [':']) :: segs') := by
  have hname : name ≠ [] := by
    rintro rfl
    rw [parsePath, hjoined, nil_append] at hne
    exact hne rfl
  refine ⟨hname, ?_⟩
  rw [parsePath, hjoined, pathLoop_drive hplain hname] at hne ⊢
  cases hloop : pathLoop rest (behind (name ++ [':']) [] []) with
  | none =>
    rw [behind] at hloop
    simp [hloop] at hne
  | some st =>
    obtain ⟨segs, cur, rfl, hgood, hcur⟩ := pathLoop_behind rest (by simp) (by simp [Plain]) hloop
    rw [behind] at hloop
    rw [hloop, bind_some, slash_behind] at hne ⊢
    cases hend : endSegment segs cur with
    | none => simp [hend] at hne
    | some segs' => exact ⟨segs, cur, segs', rfl, hend, good_endSegment hgood hcur hend, rfl⟩

/-- **What is returned is canonical.** -/
theorem canonical_parsePath (hcwd : IsDirectory cwd)
    (hne : parsePath cwd path ≠ []) : Canonical (parsePath cwd path) := by
  obtain ⟨name, rest, hjoined, hplain⟩ := exists_joined hcwd path
  obtain ⟨hname, segs, cur, segs', -, -, hgood, heq⟩ := parsePath_cases hjoined hplain hne
  exact ⟨name, segs', heq, hname, hplain, hgood⟩

/-! ### Canonical paths -/

@[simp] theorem render_singleton (drive : List Char) : render [drive] = drive ++ ['/'] := by
  simp [render]

theorem slash_flatMap (segs : List (List Char)) (a : List Char) :
    a ++ ['/'] ++ (segs.flatMap fun s => s ++ ['/']) = a ++ (segs.flatMap fun s => '/' :: s) ++ ['/'] := by
  induction segs generalizing a with
  | nil => simp
  | cons s segs ih =>
    have hs := ih (a ++ ['/'] ++ s)
    simpa using hs

theorem render_cons (h : segs ≠ []) (drive : List Char) :
    render (drive :: segs) = drive ++ segs.flatMap fun s => '/' :: s := by
  have hlen : (drive :: segs).length > 1 := by
    have := length_pos_iff.mpr h
    simp
    omega
  rw [render, if_pos hlen, flatMap_cons, slash_flatMap]
  simp

theorem pathLoop_segments (segs : List (List Char)) (hsegs : ∀ s ∈ segs, GoodSegment s) :
    ∀ (before : List (List Char)) (cur : List Char), cur = [] ∨ GoodSegment cur →
      (pathLoop (segs.flatMap fun s => '/' :: s) (behind drive before cur)).bind Sections.slash =
        (endSegment before cur).map fun b => behind drive (b ++ segs) [] := by
  induction segs with
  | nil =>
    intro before cur _
    simp [pathLoop, slash_behind]
  | cons s segs ih =>
    intro before cur hcur
    have hs := hsegs s mem_cons_self
    obtain ⟨b, hb⟩ : ∃ b, endSegment before cur = some b := by
      rcases hcur with rfl | hcur
      · exact ⟨before, endSegment_nil before⟩
      · exact ⟨_, endSegment_good before hcur⟩
    have htail := ih (fun x hx => hsegs x (mem_cons_of_mem _ hx)) b s (.inr hs)
    have hslash : pathStep '/' (behind drive before cur) = some (behind drive b []) := by
      simp [pathStep_behind, hb]
    rw [flatMap_cons, cons_append, pathLoop, hslash, bind_some, pathLoop_plain hs.plain]
    simp only [behind, nil_append] at htail ⊢
    rw [htail, endSegment_good b hs, hb]
    simp

/-- **A canonical path is returned as it is**, in every current directory. -/
theorem parsePath_of_canonical (h : Canonical path) (cwd : List Char) : parsePath cwd path = path := by
  obtain ⟨name, segs, rfl, hname, hplain, hgood⟩ := h
  -- the segments with their slashes
  obtain ⟨rest, hrest, hloop⟩ : ∃ rest, render ((name ++ [':']) :: segs) = name ++ ':' :: rest ∧
      (pathLoop rest (behind (name ++ [':']) [] [])).bind Sections.slash =
        some (behind (name ++ [':']) segs []) := by
    by_cases hsegs : segs = []
    · subst hsegs
      refine ⟨['/'], by simp, ?_⟩
      simp [pathLoop, pathStep_behind, slash_behind]
    · refine ⟨segs.flatMap fun s => '/' :: s, by rw [render_cons hsegs]; simp, ?_⟩
      rw [pathLoop_segments segs hgood [] [] (.inl rfl)]
      simp
  have habs : isAbsolute (render ((name ++ [':']) :: segs)) = true :=
    (isAbsolute_iff _).mpr ⟨name, rest, hrest, hplain⟩
  rw [behind] at hloop
  rw [parsePath, joined, if_pos habs, hrest, pathLoop_drive hplain hname, hloop, ← hrest]
  rfl

end Btos.User.Cmd
