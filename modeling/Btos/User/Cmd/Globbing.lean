import Btos.Lib.Glob

/-!
# Matching names against patterns

`user/libs/cmd/globbing.cpp`: `is_match` goes through the pattern once, with a position in the name and a flag
that says that characters may be skipped.

* `scan`, `isMatch` — **the code**.  The position is kept as the rest of the name from it on: the code never
  goes beyond the end;
* `Simple` — **the condition on a pattern**: behind its first star, at most one ordinary character stands
  between two stars, and none behind the last one.  There the leftmost choice that the code makes is as good
  as any, and it does not matter that the flag is left set when a character fits at once.
-/

namespace Btos.User.Cmd

open Lib.Glob List

/-! ### The code -/

/-- A character of a string: `'\0'` ends it. -/
abbrev Chr := { c : UInt8 // c ≠ 0 }

/-- `'*'`. -/
def starChr : Chr := ⟨42, by decide⟩

/-- `'?'`. -/
def anyChr : Chr := ⟨63, by decide⟩

/-- `'.'`. -/
def dotChr : Chr := ⟨46, by decide⟩

theorem toNat_lowered {c : UInt8} (h : c.toNat ≤ 90) : (UInt8.ofNat (c.toNat + 32)).toNat = c.toNat + 32 :=
  UInt8.toNat_ofNat_of_lt' (by simp [UInt8.size]; omega)

theorem lowered_ne_zero {c : UInt8} (h : c.toNat ≤ 90) : UInt8.ofNat (c.toNat + 32) ≠ 0 := by
  intro h0
  have hnat := toNat_lowered h
  rw [h0] at hnat
  exact absurd hnat (by simp)

def toLower (c : Chr) : Chr :=
  if h : 65 ≤ c.val.toNat ∧ c.val.toNat ≤ 90 then ⟨UInt8.ofNat (c.val.toNat + 32), lowered_ne_zero h.2⟩
  else c

/-- The inner loop: the rest of the name from the first `c` on. -/
def skipTo (c : Chr) : List Chr → Option (List Chr)
  | [] => none
  | d :: rest => if c ≠ d then skipTo c rest else some (d :: rest)

/-- The loop over the pattern: `none` is `return false`, otherwise the rest of the name and `matchany`. -/
def scan : List Chr → List Chr → Bool → Option (List Chr × Bool)
  | [], rest, matchany => some (rest, matchany)
  | c :: pattern, rest, matchany =>
      if c = anyChr then
        match rest with
        | [] => none
        | _ :: rest => scan pattern rest matchany
      else if c = starChr then scan pattern rest true
      else if rest.head? = some c then scan pattern rest.tail matchany
      else if matchany then (skipTo c rest).bind fun rest => scan pattern rest.tail false
      else none

def accepted : Option (List Chr × Bool) → Bool
  | none => false
  | some (rest, matchany) => rest.isEmpty || matchany

/-- **`is_match`**. -/
def isMatch (opattern ofilename : List Chr) : Bool :=
  if ofilename = [dotChr] ∨ ofilename = [dotChr, dotChr] then false
  else accepted (scan (opattern.map toLower) (ofilename.map toLower) false)

/-! ### What it is for -/

/-- What a character of a pattern stands for. -/
def symOf (c : Chr) : Sym Chr := if c = anyChr then .any else if c = starChr then .star else .lit c

/-- The symbols of a pattern, without regard to case. -/
def symbols (pattern : List Chr) : List (Sym Chr) := pattern.map fun c => symOf (toLower c)

/-- **A name matches a pattern**, without regard to case. -/
def Accepts (pattern name : List Chr) : Prop := Matches (symbols pattern) (name.map toLower)

/-- Behind a star; `seen` says that an ordinary character has stood since the star. -/
def SimpleTail : Bool → List (Sym Chr) → Prop
  | seen, [] => seen = false
  | _, .star :: p => SimpleTail false p
  | seen, .any :: p => SimpleTail seen p
  | seen, .lit _ :: p => seen = false ∧ SimpleTail true p

def SimpleSymbols : List (Sym Chr) → Prop
  | [] => True
  | .star :: p => SimpleTail false p
  | _ :: p => SimpleSymbols p

def Simple (pattern : List Chr) : Prop := SimpleSymbols (symbols pattern)

/-! ### The loop over symbols -/

/-- The loop as it reads the symbols of the pattern. -/
def scanSymbols : List (Sym Chr) → List Chr → Bool → Option (List Chr × Bool)
  | [], rest, matchany => some (rest, matchany)
  | .any :: _, [], _ => none
  | .any :: p, _ :: rest, matchany => scanSymbols p rest matchany
  | .star :: p, rest, _ => scanSymbols p rest true
  | .lit c :: p, rest, matchany =>
      if rest.head? = some c then scanSymbols p rest.tail matchany
      else if matchany then (skipTo c rest).bind fun rest => scanSymbols p rest.tail false
      else none

theorem scan_eq_scanSymbols (p : List Chr) : ∀ (s : List Chr) (m : Bool),
    scan p s m = scanSymbols (p.map symOf) s m := by
  induction p with
  | nil =>
    intro s m
    rfl
  | cons c p ih =>
    intro s m
    by_cases hany : c = anyChr
    · cases s <;> simp [scan, symOf, hany, scanSymbols, ih]
    · by_cases hstar : c = starChr
      · have hne : starChr ≠ anyChr := by decide
        simp [scan, symOf, hstar, hne, scanSymbols, ih]
      · simp [scan, symOf, hany, hstar, scanSymbols, ih]

/-- The inner loop stops at the first `c`. -/
theorem skipTo_spec (c : Chr) (s : List Chr) : (skipTo c s = none ∧ c ∉ s) ∨
    ∃ u v, s = u ++ c :: v ∧ c ∉ u ∧ skipTo c s = some (c :: v) := by
  induction s with
  | nil => exact .inl ⟨rfl, by simp⟩
  | cons d s ih =>
    by_cases hd : c = d
    · subst hd
      exact .inr ⟨[], s, rfl, by simp, by simp [skipTo]⟩
    · rcases ih with ⟨hnone, hmem⟩ | ⟨u, v, rfl, hu, hskip⟩
      · exact .inl ⟨by simp [skipTo, hd, hnone], by simp [hd, hmem]⟩
      · exact .inr ⟨d :: u, v, rfl, by simp [hd, hu], by simp [skipTo, hd, hskip]⟩

/-! ### Simple patterns -/

theorem Matches.append_of_simpleTail (hp : SimpleTail true p)
    (h : Matches p s) (t : List Chr) : Matches p (t ++ s) := by
  induction p generalizing s t with
  | nil => cases hp
  | cons x p ih =>
    cases x with
    | star => exact h.star_append t
    | lit c => cases hp.1
    | any =>
      cases h with
      | any d h =>
        cases t with
        | nil => exact .any d h
        | cons e t =>
          have hmore := ih hp h (t ++ [d])
          simp only [append_assoc, cons_append, nil_append] at hmore ⊢
          exact .any e hmore

theorem matches_star_lit_iff (hp : SimpleTail true p)
    (hu : c ∉ u) : Matches (.star :: .lit c :: p) (u ++ c :: v) ↔ Matches p v := by
  constructor
  · intro h
    obtain ⟨t, w, htw, hw⟩ := matches_star_iff.1 h
    cases w with
    | nil => exact absurd hw not_matches_lit_nil
    | cons d w =>
      obtain ⟨rfl, hrest⟩ := matches_lit_cons_iff.1 hw
      -- the place that was taken is not before the first one
      rcases append_eq_append_iff.1 htw with ⟨a, rfl, ha⟩ | ⟨a, rfl, ha⟩
      · cases a with
        | nil =>
          cases ha
          exact hrest
        | cons e a =>
          cases ha
          have hv := Matches.append_of_simpleTail hp hrest (a ++ [d])
          simpa using hv
      · cases a with
        | nil =>
          cases ha
          exact hrest
        | cons e a =>
          cases ha
          exact absurd (by simp) hu
  · intro h
    exact .star u (.lit c h)

/-- **Behind a star**, the loop decides the rest of a simple pattern. -/
theorem accepted_scan_tail (p : List (Sym Chr)) : ∀ s : List Chr,
    (SimpleTail false p → (accepted (scanSymbols p s true) = true ↔ Matches (.star :: p) s)) ∧
    (SimpleTail true p → ∀ m, (accepted (scanSymbols p s m) = true ↔ Matches p s)) := by
  induction p with
  | nil =>
    intro s
    constructor
    · intro _
      have hall : Matches [.star] s := by simpa using Matches.star s Matches.nil
      simp [scanSymbols, accepted, hall]
    · nofun
  | cons x p ih =>
    intro s
    cases x with
    | star =>
      simp only [scanSymbols, matches_star_star_iff]
      exact ⟨(ih s).1, fun hp _ => (ih s).1 hp⟩
    | any =>
      cases s with
      | nil =>
        have hnot : ¬Matches (.star :: .any :: p) [] := by
          intro h
          exact absurd h.minLength_le (by simp [minLength])
        simp [scanSymbols, accepted, hnot]
      | cons d s =>
        simp only [scanSymbols, matches_star_any_iff, matches_any_cons_iff]
        exact ih s
    | lit d =>
      constructor
      · intro hp
        have hrest := fun s m => (ih s).2 hp.2 m
        rw [scanSymbols]
        rcases skipTo_spec d s with ⟨hskip, hmem⟩ | ⟨u, v, rfl, hu, hskip⟩
        · have hhead : s.head? ≠ some d := fun h => hmem (mem_of_mem_head? h)
          have hnot : ¬Matches (.star :: .lit d :: p) s := by
            intro h
            obtain ⟨t, w, htw, hw⟩ := matches_star_iff.1 h
            cases hw with
            | lit _ hw => exact hmem (by simp [htw])
          simp [hhead, hskip, accepted, hnot]
        · rw [matches_star_lit_iff hp.2 hu, hskip]
          cases u with
          | nil =>
            -- the first character fits: the flag stays set, and that makes no difference
            simp [hrest]
          | cons e u =>
            have hne : e ≠ d := fun h => hu (by simp [h])
            simp [hne, hrest]
      · intro hp
        cases hp.1

/-- **The loop decides simple patterns.** -/
theorem accepted_scan (p : List (Sym Chr)) : ∀ s : List Chr, SimpleSymbols p →
    (accepted (scanSymbols p s false) = true ↔ Matches p s) := by
  induction p with
  | nil =>
    intro s _
    cases s <;> simp [scanSymbols, accepted]
  | cons x p ih =>
    intro s hp
    cases x with
    | star => exact (accepted_scan_tail p s).1 hp
    | any =>
      cases s with
      | nil => simp [scanSymbols, accepted]
      | cons d s =>
        rw [matches_any_cons_iff]
        exact ih s hp
    | lit d =>
      cases s with
      | nil => simp [scanSymbols, accepted]
      | cons e s =>
        by_cases he : e = d
        · simp [scanSymbols, he, ih s hp]
        · simp [scanSymbols, he, accepted]

/-! ### Other patterns -/

/-- Behind an ordinary character come only `any`s, and then another one or the end. -/
def Dense (p : List (Sym Chr)) : Prop :=
  ∃ x c j r, p = x ++ .lit c :: (replicate j .any ++ r) ∧ (r = [] ∨ ∃ d y, r = .lit d :: y)

theorem Dense.append (h : Dense p) (w : List (Sym Chr)) : Dense (w ++ p) := by
  obtain ⟨x, c, j, r, rfl, hr⟩ := h
  exact ⟨w ++ x, c, j, r, by simp, hr⟩

theorem dense_of_not_simpleTail (p : List (Sym Chr)) : (¬SimpleTail false p → Dense p) ∧
    (¬SimpleTail true p → ∀ c k, Dense (.lit c :: (replicate k .any ++ p))) := by
  induction p with
  | nil =>
    constructor
    · intro h
      exact absurd rfl h
    · intro _ c k
      exact ⟨[], c, k, [], rfl, .inl rfl⟩
  | cons x p ih =>
    cases x with
    | star =>
      constructor
      · intro h
        exact (ih.1 h).append [.star]
      · intro h c k
        have hmore := (ih.1 h).append (.lit c :: (replicate k .any ++ [.star]))
        rwa [cons_append, append_assoc] at hmore
    | any =>
      constructor
      · intro h
        exact (ih.1 h).append [.any]
      · intro h c k
        have hmore := ih.2 h c (k + 1)
        rwa [replicate_succ', append_assoc] at hmore
    | lit d =>
      constructor
      · intro h
        have htail : ¬SimpleTail true p := fun hp => h ⟨rfl, hp⟩
        exact ih.2 htail d 0
      · intro _ c k
        exact ⟨[], c, k, .lit d :: p, rfl, .inr ⟨d, p, rfl⟩⟩

theorem dense_of_not_simple (p : List (Sym Chr)) : ¬SimpleSymbols p →
    ∃ x q, p = x ++ q ∧ .star ∈ x ∧ Dense q := by
  induction p with
  | nil =>
    intro h
    exact absurd trivial h
  | cons x p ih =>
    intro h
    have hmore : ¬SimpleSymbols p → ∃ w q, x :: p = w ++ q ∧ .star ∈ w ∧ Dense q := by
      intro hp
      obtain ⟨w, q, rfl, hw, hq⟩ := ih hp
      exact ⟨x :: w, q, rfl, mem_cons_of_mem _ hw, hq⟩
    cases x with
    | star => exact ⟨[.star], p, rfl, by simp, (dense_of_not_simpleTail p).1 h⟩
    | any | lit c => exact hmore h

/-- The loop goes through a string of the pattern in which the stars are empty, with the flag as it was or
set by a star. -/
theorem scanSymbols_shortest (z : Chr) (p q : List (Sym Chr)) : ∀ (r : List Chr) (m : Bool),
    scanSymbols (p ++ q) (shortest z p ++ r) m = scanSymbols q r (m || decide (.star ∈ p)) := by
  induction p with
  | nil => simp [shortest]
  | cons x p ih =>
    intro r m
    cases x with
    | star | any | lit c => simp [shortest, scanSymbols, ih]

theorem scanSymbols_replicate_any (z : Chr) (j : ℕ) (q : List (Sym Chr)) (r : List Chr) (m : Bool) :
    scanSymbols (replicate j .any ++ q) (replicate j z ++ r) m = scanSymbols q r m := by
  induction j with
  | zero => rfl
  | succ j ih => simpa [replicate_succ, scanSymbols] using ih

/-- The string that the loop takes for a dense pattern: one `e` too many behind `c`. -/
def oneMore (e c : Chr) (x : List (Sym Chr)) (j : ℕ) (r : List (Sym Chr)) : List Chr :=
  shortest e x ++ c :: (replicate j e ++ e :: shortest e r)

/-- **The loop takes the string**, since the flag is still set behind `c`. -/
theorem accepted_oneMore (j : ℕ) (hx : .star ∈ x) (hr : r = [] ∨ ∃ d y, r = .lit d :: y ∧ d ≠ e) :
    accepted (scanSymbols (x ++ .lit c :: (replicate j .any ++ r)) (oneMore e c x j r) false) = true := by
  rw [oneMore, scanSymbols_shortest]
  simp only [hx, decide_true, Bool.or_true, scanSymbols, head?_cons, tail_cons, if_true,
    scanSymbols_replicate_any]
  rcases hr with rfl | ⟨d, y, rfl, hd⟩
  · rfl
  · have hend := scanSymbols_shortest e y [] [] false
    simp only [append_nil] at hend
    simp [scanSymbols, shortest, skipTo, hd, hd.symm, hend, accepted]

/-- **The string does not match**: it is one longer than the shortest ones, so `c` could stand in two places
only, and behind the first of them the next character is wrong. -/
theorem not_matches_oneMore (hc : c ≠ e) (hr : r = [] ∨ ∃ d y, r = .lit d :: y ∧ d ≠ e) :
    ¬Matches (x ++ .lit c :: (replicate j .any ++ r)) (oneMore e c x j r) := by
  intro h
  obtain ⟨a, b, hab, ha, hb⟩ := matches_append_iff.1 h
  cases hb with
  | lit _ hb =>
    obtain ⟨g, w, rfl, hg, hw⟩ := matches_append_iff.1 hb
    have hgj : g.length = j := length_of_matches_replicate hg
    have hlen := congrArg length hab
    have hxa := ha.minLength_le
    have hrw := hw.minLength_le
    simp only [oneMore, length_append, length_cons, length_replicate, length_shortest, hgj] at hlen
    have hplace : a.length = minLength x ∨ a.length = minLength x + 1 := by omega
    rcases hplace with hplace | hplace
    · -- the symbol behind the `any`s would have to be `e`
      have hsame := (append_inj hab (by rw [length_shortest, hplace])).2
      have htail := (append_inj (cons.inj hsame).2 (by simp [hgj])).2
      subst htail
      rcases hr with rfl | ⟨d, y, rfl, hd⟩
      · simp at hw
      · exact hd (matches_lit_cons_iff.1 hw).1.symm
    · -- `c` itself would have to be `e`
      have hmove : oneMore e c x j r = (shortest e x ++ [c]) ++ e :: (replicate j e ++ shortest e r) := by
        rw [oneMore, append_cons (replicate j e), ← replicate_succ', replicate_succ]
        simp
      rw [hmove] at hab
      have hsame := (append_inj hab (by simp [length_shortest, hplace])).2
      exact hc (cons.inj hsame).1.symm

/-! ### The result -/

theorem toLower_toLower (c : Chr) : toLower (toLower c) = toLower c := by
  by_cases h : 65 ≤ c.val.toNat ∧ c.val.toNat ≤ 90
  · have hnat : (toLower c).val.toNat = c.val.toNat + 32 := by
      rw [toLower, dif_pos h]
      exact toNat_lowered h.2
    have hnot : ¬(65 ≤ (toLower c).val.toNat ∧ (toLower c).val.toNat ≤ 90) := by omega
    exact dif_neg hnot
  · have hsame : toLower c = c := dif_neg h
    rw [hsame, hsame]

theorem toLower_of_lit_mem (pattern : List Chr) (h : .lit c ∈ symbols pattern) : toLower c = c := by
  obtain ⟨d, -, hd⟩ := mem_map.1 h
  unfold symOf at hd
  split_ifs at hd
  cases hd
  exact toLower_toLower d

theorem exists_letter (c d : Chr) : ∃ e, e ≠ c ∧ e ≠ d ∧ e ≠ dotChr ∧ toLower e = e := by
  let a : Chr := ⟨97, by decide⟩
  let b : Chr := ⟨98, by decide⟩
  let k : Chr := ⟨99, by decide⟩
  by_cases ha : a ≠ c ∧ a ≠ d
  · exact ⟨a, ha.1, ha.2, by decide, by decide⟩
  · by_cases hb : b ≠ c ∧ b ≠ d
    · exact ⟨b, hb.1, hb.2, by decide, by decide⟩
    · refine ⟨k, ?_, ?_, by decide, by decide⟩ <;> grind

/-- **The code is right about a pattern exactly if it is simple.** -/
theorem isMatch_right_iff (pattern : List Chr) : (∀ name, name ≠ [dotChr] → name ≠ [dotChr, dotChr] →
      (isMatch pattern name = true ↔ Accepts pattern name)) ↔ Simple pattern := by
  have hscan : ∀ name, name ≠ [dotChr] → name ≠ [dotChr, dotChr] → isMatch pattern name =
      accepted (scanSymbols (symbols pattern) (name.map toLower) false) := by
    intro name h1 h2
    simp [isMatch, h1, h2, scan_eq_scanSymbols, symbols, Function.comp_def]
  constructor
  · intro hright
    by_contra hnot
    obtain ⟨w, q, hpat, hw, v, c, j, r, rfl, hr⟩ := dense_of_not_simple _ hnot
    obtain ⟨x, hx⟩ : ∃ x, x = w ++ v := ⟨_, rfl⟩
    rw [← append_assoc, ← hx] at hpat
    have hstar : .star ∈ x := by simp [hx, hw]
    -- a letter that is neither `c` nor the character that follows it
    obtain ⟨e, hce, hre, hdot, hlow⟩ : ∃ e, c ≠ e ∧ (r = [] ∨ ∃ d y, r = .lit d :: y ∧ d ≠ e) ∧
        e ≠ dotChr ∧ toLower e = e := by
      rcases hr with rfl | ⟨d, y, rfl⟩
      · obtain ⟨e, hc, -, hdot, hlow⟩ := exists_letter c c
        exact ⟨e, hc.symm, .inl rfl, hdot, hlow⟩
      · obtain ⟨e, hc, hd, hdot, hlow⟩ := exists_letter c d
        exact ⟨e, hc.symm, .inr ⟨d, y, rfl, hd.symm⟩, hdot, hlow⟩
    have hmem : e ∈ oneMore e c x j r := by simp [oneMore]
    have hlower : (oneMore e c x j r).map toLower = oneMore e c x j r := by
      apply (map_congr_left _).trans (map_id _)
      intro b hb
      by_cases hbe : b = e
      · rw [hbe, hlow, id]
      · apply toLower_of_lit_mem pattern
        rw [hpat]
        simp only [oneMore, mem_append, mem_cons, mem_replicate, hbe, and_false, false_or] at hb ⊢
        rcases hb with hb | rfl | hb
        · exact .inl ((mem_shortest hb).resolve_left hbe)
        · simp
        · simp [(mem_shortest hb).resolve_left hbe]
    have hname : ∀ n, oneMore e c x j r ≠ replicate n dotChr := by
      intro n h
      rw [h] at hmem
      exact hdot (mem_replicate.1 hmem).2
    have htaken := hright (oneMore e c x j r) (hname 1) (hname 2)
    rw [hscan _ (hname 1) (hname 2), Accepts, hlower, hpat] at htaken
    exact not_matches_oneMore hce hre (htaken.1 (accepted_oneMore j hstar hre))
  · intro hsimple name h1 h2
    rw [hscan name h1 h2]
    exact accepted_scan _ _ hsimple

/-- The string with the given character codes. -/
def str (codes : List ℕ) : List Chr :=
  codes.filterMap fun n => if h : UInt8.ofNat n ≠ 0 then some ⟨UInt8.ofNat n, h⟩ else none

/-- **Wrong answers.**  `*bc` is refused for `abxbc`, which ends in `bc`, and `*ab` is taken for `axb`. -/
theorem isMatch_wrong :
    (isMatch (str [42, 98, 99]) (str [97, 98, 120, 98, 99]) = false ∧
      Accepts (str [42, 98, 99]) (str [97, 98, 120, 98, 99])) ∧
    (isMatch (str [42, 97, 98]) (str [97, 120, 98]) = true ∧
      ¬Accepts (str [42, 97, 98]) (str [97, 120, 98])) := by
  refine ⟨⟨by decide, ?_⟩, by decide, ?_⟩
  · exact .star (str [97, 98, 120]) (.lit _ (.lit _ .nil))
  · intro h
    obtain ⟨t, u, htu, hu⟩ := matches_star_iff.1 h
    cases hu with
    | lit _ hu =>
      cases hu with
      | lit _ hu =>
        cases hu
        have hsecond := congrArg (fun l => l.reverse[1]?) htu
        simp only [reverse_append, reverse_cons, reverse_nil, nil_append,
          cons_append, getElem?_cons_succ, getElem?_cons_zero] at hsecond
        exact absurd hsecond (by decide)

end Btos.User.Cmd
