import Btos.User.Package.Extract

/-!
# The paths of members

`ParsePath` on the installation path with the path of a member behind it, through `btos_path_parse` and its
buffer.  What is proved there about buffers and texts is used, and not the loops themselves.

* `InstallPath.parsePath_member`, `InstallPath.parsePath_member_none` — **the path of a member**;
* `InstallPath.startsWith_member_iff` — **which members are accepted**: those inside and those beside.
-/

namespace Btos.User.Package

open User.Cmd User.Newlib List Option
open Lib.Buffer Lib.Segments

/-! ### The drive -/

theorem length_lt_of_fits (n rest : List Char) (hn : ∀ c ∈ n, c ≠ ':' ∧ ¬ IsSeparator c) :
    ∀ {t : Text} {first : Bool}, t.text.length < size → Newlib.Fits size t first (n ++ rest) →
      t.text.length + n.length < size := by
  induction n with
  | nil =>
    intro t first hsize _
    exact hsize
  | cons c n ih =>
    intro t first hsize hfits
    obtain ⟨hcolon, hsep⟩ := hn c mem_cons_self
    have hlen := @length_next_plain t c hcolon hsep
    rw [cons_append, Newlib.Fits, if_neg hcolon, if_neg hsep] at hfits
    have hbound := ih (fun c hc => hn c (mem_cons_of_mem _ hc)) (hlen ▸ hfits.1) hfits.2
    rw [length_cons]
    omega

/-- **The drive stays.** -/
theorem readPath_base : ∀ {t t' : Text} {first : Bool}, t.drive = true → t.base ≠ [] →
    readPath size t first cs = some t' → t'.base = t.base := by
  induction cs with
  | nil =>
    nofun
  | cons c cs ih =>
    intro t t' first hdrive hbase h
    obtain ⟨hno, h⟩ := ite_none_left_eq_some.1 h
    have hcolon : c ≠ ':' := fun hc => hno ⟨hc, .inr hdrive⟩
    obtain ⟨hb, hd⟩ := Text.base_next hcolon hbase
    split at h
    · cases h
      exact hb
    · rw [ih (hd.trans hdrive) (hb ▸ hbase) h, hb]

/-- A drive's name is what is left of the characters before the colon, without those that a new line ends. -/
theorem readPath_colon (hn : ∀ c ∈ n, c ≠ ':' ∧ c ≠ '/' ∧ c ≠ nul) :
    ∀ {t t' : Text} {first : Bool}, t.base = [] → t.segs = [] → (∀ c ∈ t.cur, c ≠ ':' ∧ ¬ IsSeparator c) →
      t.text.length < size → Newlib.Fits size t first (n ++ ':' :: rest) →
      readPath size t first (n ++ ':' :: rest) = some t' →
      ∃ k, (∀ c ∈ k, c ≠ ':' ∧ ¬ IsSeparator c) ∧ t'.base = k ++ [':'] ++ ['/'] ∧
        ((∀ c ∈ n, ¬ IsSeparator c) → k = t.cur ++ n) := by
  induction n with
  | nil =>
    intro t t' first hbase hsegs hcur hsize hfits h
    rw [nil_append, readPath] at h
    split at h
    · cases h
    · have hnext : (t.next ':').base = t.cur ++ [':'] ++ ['/'] := by
        rw [Text.next]
        simp [Text.text, Text.kept, hbase, hsegs]
      have hdrive : (t.next ':').drive = true := by rw [Text.next, if_pos rfl]
      refine ⟨t.cur, hcur, ?_, fun _ => (append_nil _).symm⟩
      split at h
      · cases h
        exact hnext
      · rw [readPath_base hdrive (by rw [hnext]; simp) h, hnext]
  | cons c n ih =>
    intro t t' first hbase hsegs hcur hsize hfits h
    obtain ⟨hcolon, hslash, hnul⟩ := hn c mem_cons_self
    have hrest := fun c hc => hn c (mem_cons_of_mem _ hc)
    rw [cons_append, Newlib.Fits, if_neg hcolon] at hfits
    rw [cons_append, readPath, if_neg (fun h => hcolon h.1)] at h
    by_cases hsep : IsSeparator c
    · -- a new line
      rw [if_pos hsep] at hfits
      obtain ⟨-, htop, hfits⟩ := hfits
      have hkept : t.kept = [] := by rw [Text.kept, hbase, hsegs]; rfl
      have hdd : t.cur ≠ ['.', '.'] := fun hdd => htop hdd hkept
      have hnext : t.next c = if t.cur = ['.'] then { t with cur := [] } else t := by
        rw [Text.next, if_neg hcolon, if_pos hsep, if_neg hdd]
        split
        · rfl
        · rw [if_neg fun hend => hslash hend.2]
      have hlen : (t.next c).text.length ≤ t.text.length := by
        rcases length_next_separator t hsep with hle | ⟨hc, -⟩
        · exact hle
        · exact absurd hc hslash
      rw [if_neg (not_or.mpr ⟨hnul, by omega⟩)] at h
      have hfits := (hfits.resolve_left hnul).resolve_left (by omega)
      have hnone : (t.next c).base = [] ∧ (t.next c).segs = [] ∧ ∀ c' ∈ (t.next c).cur, c' ≠ ':' ∧ ¬ IsSeparator c' := by
        rw [hnext]
        split
        · exact ⟨hbase, hsegs, by simp⟩
        · exact ⟨hbase, hsegs, hcur⟩
      obtain ⟨k, hk, hbase', -⟩ := ih hrest hnone.1 hnone.2.1 hnone.2.2 (by omega) hfits h
      exact ⟨k, hk, hbase', fun hplain => absurd hsep (hplain c mem_cons_self)⟩
    · rw [if_neg hsep] at hfits
      have hlen := @length_next_plain t c hcolon hsep
      have hnext : t.next c = { t with cur := t.cur ++ [c] } := by rw [Text.next, if_neg hcolon, if_neg hsep]
      rw [if_neg (not_or.mpr ⟨hnul, by omega⟩)] at h
      rw [hnext] at hfits h hlen
      have hcur' : ∀ x ∈ t.cur ++ [c], x ≠ ':' ∧ ¬ IsSeparator x := by
        intro x hx
        rcases mem_append.mp hx with hx | hx
        · exact hcur x hx
        · rw [mem_singleton.mp hx]
          exact ⟨hcolon, hsep⟩
      obtain ⟨k, hk, hbase', heq⟩ := ih hrest (t := { t with cur := t.cur ++ [c] }) hbase hsegs hcur' (by omega)
        hfits.2 h
      refine ⟨k, hk, hbase', fun hplain => ?_⟩
      rw [heq fun x hx => hplain x (mem_cons_of_mem _ hx), append_assoc]
      rfl

/-! ### The string -/

theorem segments_plain (hgood : t.Good) : ∀ s ∈ segments t, s ≠ [] ∧ '/' ∉ s := by
  intro s hs
  rcases mem_append.mp hs with hs | hs
  · exact ⟨(hgood.segs s hs).1, (hgood.segs s hs).2.1.1⟩
  · split at hs
    · cases hs
    · rename_i hne
      rw [mem_singleton] at hs
      exact hs ▸ ⟨hne, hgood.cur.1.1⟩

/-- **`ParsePath` of a path that fits.** -/
theorem parsePath_of_fits (hmem : pathWrites o cwd path = some mem)
    (hlen : mem.length = btMaxPath) (hfits : Newlib.Fits btMaxPath .empty true mem) :
    (readPath btMaxPath .empty true mem = none ∧ parsePath o cwd path = some []) ∨
      ∃ t, readPath btMaxPath .empty true mem = some t ∧ t.Good ∧ parsePath o cwd path = some (trimmed t.text) := by
  have hword : Text.empty.text.length + 2 * mem.length < 2 ^ 32 := by
    rw [hlen]
    decide
  have hloop : btosPathParseWrites o cwd path btMaxPath =
      loopWrites o btMaxPath (mem ++ o.path) (Text.empty.state btMaxPath 0) := by
    simp only [btosPathParseWrites, hmem]
    rfl
  rw [parsePath, hloop]
  rcases @loopWrites_of_fits btMaxPath o o.path _ _ 0 Text.good_empty (by decide) hword hfits with
    ⟨hread, b, hb⟩ | ⟨t, hread, hgood, htrim, ht⟩
  · exact .inl ⟨hread, by rw [hb]⟩
  · have hnul : nul ∉ trimmed t.text := fun h => hgood.nul_text ((trimmed_sublist _).subset h)
    have hend : nul ∈ pad nul btMaxPath (trimmed t.text) := by
      rw [pad, mem_append, mem_replicate]
      exact .inr ⟨by omega, rfl⟩
    refine .inr ⟨t, hread, hgood, ?_⟩
    rw [ht]
    simp only [if_pos hend, cString_pad hnul]

/-! ### Members -/

theorem btosPathIsAbsolute_drive (hn : ∀ c ∈ n, c ≠ ':' ∧ ¬ IsSeparator c) (rest : List Char) :
    btosPathIsAbsolute (n ++ ':' :: rest) = true := by
  rw [btosPathIsAbsolute_eq, isAbsolute_iff]
  exact ⟨n, rest, rfl, fun h => (hn _ h).2 (.inl rfl), fun h => (hn _ h).1 rfl⟩

namespace InstallPath

variable (p : InstallPath) (m : List Char)

theorem member_eq : ∃ rest, p.path ++ '/' :: m = p.name ++ ':' :: rest :=
  ⟨slashed '/' p.segs ++ '/' :: m, by simp [path, drive]⟩

theorem pathWrites_member (o : Outside) (cwd : List Char) : pathWrites o cwd (p.path ++ '/' :: m) = some (p.memory m) := by
  obtain ⟨rest, hrest⟩ := p.member_eq m
  have habs : btosPathIsAbsolute (p.path ++ '/' :: m) = true := by
    rw [hrest]
    exact btosPathIsAbsolute_drive p.name_plain rest
  rw [pathWrites, memory, pathMemory, if_pos habs, if_pos habs]

theorem btosPathParseWrites_member (o : Outside) (cwd : List Char) :
    btosPathParseWrites o cwd (p.path ++ '/' :: m) btMaxPath =
      loopWrites o btMaxPath (p.memory m ++ o.path) (Text.empty.state btMaxPath 0) := by
  simp only [btosPathParseWrites, p.pathWrites_member m o cwd]
  rfl

theorem word_memory : Text.empty.text.length + 2 * (p.memory m).length < 2 ^ 32 := by
  rw [memory, length_pathMemory]
  decide

theorem base_member (hfits : p.Fits m) (h : readPath btMaxPath .empty true (p.memory m) = some t) :
    t.base = p.name ++ [':'] ++ ['/'] := by
  obtain ⟨rest, hrest⟩ := p.member_eq m
  have habs : btosPathIsAbsolute (p.path ++ '/' :: m) = true := by
    rw [hrest]
    exact btosPathIsAbsolute_drive p.name_plain rest
  have hmemory : p.memory m = (p.name ++ ':' :: rest).take btMaxPath ++
      List.replicate (btMaxPath - (p.name ++ ':' :: rest).length) nul := by
    rw [memory, pathMemory, if_pos habs, hrest, strncpy, take_zero, nil_append, Nat.zero_add,
      drop_replicate, Nat.sub_self, replicate_zero, append_nil]
  -- a name that fills the array does not fit
  have hname : p.name.length < btMaxPath := by
    by_contra hlong
    rw [Fits, hmemory, take_append_of_le_length (Nat.not_lt.mp hlong)] at hfits
    have hbound := (length_lt_of_fits (p.name.take btMaxPath) _ (fun c hc => p.name_plain c (mem_of_mem_take hc))
      (by decide) hfits)
    rw [length_take, Nat.min_eq_left (Nat.not_lt.mp hlong)] at hbound
    exact absurd hbound (by decide)
  obtain ⟨k, hk⟩ : ∃ k, btMaxPath - p.name.length = k + 1 := ⟨btMaxPath - p.name.length - 1, by omega⟩
  have hsplit : p.memory m = p.name ++ ':' :: (rest.take k ++
      List.replicate (btMaxPath - (p.name ++ ':' :: rest).length) nul) := by
    rw [hmemory, take_append, take_of_length_le hname.le, hk]
    simp
  rw [hsplit] at h
  rw [Fits, hsplit] at hfits
  have hplain : ∀ c ∈ p.name, c ≠ ':' ∧ c ≠ '/' ∧ c ≠ nul := fun c hc =>
    ⟨(p.name_plain c hc).1, fun h => (p.name_plain c hc).2 (.inl h), fun h => (p.name_plain c hc).2 (.inr (.inr h))⟩
  obtain ⟨k, -, hbase, hk⟩ :=
    readPath_colon hplain rfl rfl (fun c hc => absurd hc not_mem_nil) (by decide) hfits h
  rw [hbase, hk fun c hc => (p.name_plain c hc).2]
  rfl

/-- The path that a member has in the end; it is empty if the member's path is refused. -/
def finalPath : List Char :=
  match p.resolved m with
  | none => []
  | some segs => render (p.drive :: segs)

/-- **The path of a member that fits.** -/
theorem parsePath_member (o : Outside) (cwd : List Char) (hfits : p.Fits m) :
    parsePath o cwd (p.path ++ '/' :: m) = some (p.finalPath m) ∧
      ∀ segs, p.resolved m = some segs → ∀ s ∈ segs, s ≠ [] ∧ '/' ∉ s := by
  rcases parsePath_of_fits (p.pathWrites_member m o cwd) (length_pathMemory _ _) hfits with
    ⟨hread, hparse⟩ | ⟨t, hread, hgood, hparse⟩
  · have hnone : p.resolved m = none := by rw [resolved, hread, map_none]
    rw [hparse, finalPath, hnone]
    exact ⟨rfl, fun segs h => absurd h.symm (some_ne_none segs)⟩
  · have hsome : p.resolved m = some (segments t) := by rw [resolved, hread, map_some]
    rw [hparse, finalPath, hsome, trimmed_text hgood (p.base_member m hfits hread)]
    refine ⟨rfl, fun segs h => ?_⟩
    cases h
    exact segments_plain hgood

/-- **A member that does not fit** has no path, with something in the memory around the arrays. -/
theorem parsePath_member_none (hfits : ¬ p.Fits m) :
    ∃ o : Outside, ∀ cwd, parsePath o cwd (p.path ++ '/' :: m) = none := by
  obtain ⟨o, ho⟩ := @unsafe_of_not_fits btMaxPath _ _ 0 Text.good_empty (by decide) (p.word_memory m) hfits
  refine ⟨o, fun cwd => ?_⟩
  rw [parsePath, p.btosPathParseWrites_member m o cwd]
  cases houtcome : loopWrites o btMaxPath (p.memory m ++ o.path) (Text.empty.state btMaxPath 0) with
  | wrote | died => rfl
  | returned result buffer =>
    rw [houtcome, Outcome.Safe, Classical.not_imp] at ho
    obtain ⟨rfl, hnul⟩ := ho
    exact if_neg hnul

theorem render_drive (segs : List (List Char)) : ∃ tail, render (p.drive :: segs) = p.drive ++ tail ∧
      ((segs = [] ∧ tail = ['/']) ∨ (segs ≠ [] ∧ tail = slashed '/' segs)) := by
  by_cases hsegs : segs = []
  · exact ⟨['/'], by rw [hsegs, render_singleton], .inl ⟨hsegs, rfl⟩⟩
  · exact ⟨slashed '/' segs, render_cons hsegs p.drive, .inr ⟨hsegs, rfl⟩⟩

end InstallPath

theorem startsWith_iff (str start : List Char) : startsWith str start = true ↔ start <+: str := by
  rw [startsWith, prefix_iff_eq_take]
  split
  · refine iff_of_false Bool.false_ne_true fun h => ?_
    have hlen := congrArg List.length h
    rw [length_take] at hlen
    omega
  · rw [decide_eq_true_eq, eq_comm]

namespace InstallPath

variable (p : InstallPath) (m : List Char)

/-- **The members that are accepted.** -/
theorem startsWith_member_iff (hplain : ∀ segs, p.resolved m = some segs → ∀ s ∈ segs, s ≠ [] ∧ '/' ∉ s) :
    startsWith (p.finalPath m) p.path = true ↔
      ∃ segs, p.resolved m = some segs ∧ (p.segs <+: segs ∨ Extends p.segs segs) := by
  rw [startsWith_iff, finalPath]
  cases hresolved : p.resolved m with
  | none =>
    refine iff_of_false (fun h => ?_) (fun h => ?_)
    · have hnil := prefix_nil.mp h
      simp [path, drive] at hnil
    · obtain ⟨segs, h, -⟩ := h
      cases h
  | some segs =>
    obtain ⟨tail, hrender, hcases⟩ := p.render_drive segs
    simp only [hrender, Option.some.injEq, exists_eq_left']
    rw [path, prefix_append_right_inj]
    rcases hcases with ⟨rfl, rfl⟩ | ⟨-, rfl⟩
    · -- the root of the drive
      constructor
      · intro h
        left
        cases hsegs : p.segs with
        | nil => exact nil_prefix
        | cons s l =>
          rw [hsegs, slashed_cons, cons_append, cons_prefix_cons] at h
          have hs := (append_eq_nil_iff.mp (prefix_nil.mp h.2)).1
          exact absurd hs (p.segs_plain s (by rw [hsegs]; exact mem_cons_self)).1
      · rintro (h | h)
        · rw [prefix_nil.mp h]
          exact nil_prefix
        · exact absurd h (not_extends_nil _)
    · exact slashed_prefix_iff (fun s hs => (p.segs_plain s hs).2) (fun s hs => (hplain segs hresolved s hs).2)

/-- **Inside.** -/
theorem contained_of_prefix {segs : List (List Char)} (hresolved : p.resolved m = some segs) (h : p.segs <+: segs) :
    Contained p.path (p.finalPath m) := by
  obtain ⟨tail, hrender, hcases⟩ := p.render_drive segs
  simp only [finalPath, hresolved, hrender, Contained, path]
  rcases hcases with ⟨rfl, rfl⟩ | ⟨-, rfl⟩
  · rw [prefix_nil.mp h]
    exact .inr (by rw [slashed, flatMap_nil, append_nil])
  · rw [append_cancel_left_eq, append_assoc, prefix_append_right_inj]
    exact slashed_contained h

/-- **Beside.** -/
theorem not_contained_of_extends {segs : List (List Char)} (hresolved : p.resolved m = some segs)
    (hplain : ∀ s ∈ segs, s ≠ [] ∧ '/' ∉ s) (h : Extends p.segs segs) : ¬ Contained p.path (p.finalPath m) := by
  obtain ⟨tail, hrender, hcases⟩ := p.render_drive segs
  simp only [finalPath, hresolved, hrender, Contained, path]
  rcases hcases with ⟨rfl, rfl⟩ | ⟨-, rfl⟩
  · exact absurd h (not_extends_nil _)
  · rw [append_cancel_left_eq, append_assoc, prefix_append_right_inj]
    exact h.not_contained fun s hs => (hplain s hs).2

end InstallPath

/-! ### The path of `InstallPackage` -/

theorem exists_installPath (hk : ∀ c ∈ k, c ≠ ':' ∧ ¬ IsSeparator c) (hsegs : ∀ s ∈ segs, s ≠ [] ∧ '/' ∉ s) :
    ∃ p : InstallPath, (if (render ((k ++ [':']) :: segs)).getLast? = some '/' then
      (render ((k ++ [':']) :: segs)).dropLast else render ((k ++ [':']) :: segs)) = p.path := by
  refine ⟨⟨k, segs, hk, hsegs⟩, ?_⟩
  show _ = k ++ [':'] ++ slashed '/' segs
  rcases eq_nil_or_concat' segs with rfl | ⟨front, last, rfl⟩
  · rw [render_singleton, getLast?_concat, if_pos rfl, dropLast_concat, slashed, flatMap_nil, append_nil]
  · obtain ⟨hne, hslash⟩ := hsegs last (by simp)
    obtain ⟨init, x, rfl⟩ := (eq_nil_or_concat' last).resolve_left hne
    have hx : x ≠ '/' := by
      rintro rfl
      exact hslash (by simp)
    have hend : (k ++ [':'] ++ slashed '/' (front ++ [init ++ [x]])) =
        k ++ [':'] ++ slashed '/' front ++ '/' :: init ++ [x] := by
      simp [slashed]
    have hrender : render ((k ++ [':']) :: (front ++ [init ++ [x]])) =
        k ++ [':'] ++ slashed '/' (front ++ [init ++ [x]]) := render_cons (by simp) _
    rw [hrender, if_neg]
    rw [hend, getLast?_concat, Option.some.injEq]
    exact hx

/-- **The installation path of `InstallPackage`** is such a path, if the path that it is given is not refused. -/
theorem installPath_normal (o : Outside) (hdir : IsDirectory cwd) (hcwd : nul ∉ cwd)
    (hpath : nul ∉ path) (hlen : (joined cwd path).length ≤ btMaxPath) (hroom : PathFits cwd path)
    (hshort : cwd.length < btMaxPath) (hfits : Newlib.Fits btMaxPath .empty true (pathMemory cwd path)) :
    installPath o cwd path = some [] ∨ ∃ p : InstallPath, installPath o cwd path = some p.path := by
  rw [installPath]
  rcases parsePath_of_fits (pathWrites_eq o hcwd hshort hroom) (length_pathMemory _ _) hfits with
    ⟨-, hparse⟩ | ⟨t, hread, hgood, hparse⟩
  · rw [hparse]
    exact .inl rfl
  · right
    obtain ⟨name, rest, hjoined, hplain⟩ := exists_joined hdir path
    have hmemory := pathMemory_eq hdir hcwd hlen
    rw [hjoined] at hmemory
    have hname : ∀ c ∈ name, c ≠ ':' ∧ c ≠ '/' ∧ c ≠ nul := by
      intro c hc
      refine ⟨fun h => hplain.2 (h ▸ hc), fun h => hplain.1 (h ▸ hc), fun h => ?_⟩
      have hno := nul_not_mem_joined hcwd hpath hdir
      rw [hjoined] at hno
      exact hno (mem_append_left _ (h ▸ hc))
    have hsplit : pathMemory cwd path = name ++ ':' :: (rest ++
        List.replicate (btMaxPath - (name ++ ':' :: rest).length) nul) := by
      rw [hmemory, pad]
      simp
    rw [hsplit] at hread hfits
    obtain ⟨k, hk, hbase, -⟩ := readPath_colon hname rfl rfl (fun c hc => absurd hc not_mem_nil) (by decide) hfits hread
    obtain ⟨p, hp⟩ := exists_installPath hk (segments_plain hgood)
    refine ⟨p, ?_⟩
    rw [hparse, trimmed_text hgood hbase]
    exact congrArg some hp

end Btos.User.Package
