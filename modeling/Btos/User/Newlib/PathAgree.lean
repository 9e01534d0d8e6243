import Btos.User.Newlib.PathSafe

/-!
# The two path parsers agree

The loop of `btos_path_parse` over a buffer follows the loop of `parse_path` over sections, character by character:
the segments of the text that the first one keeps are the sections of the second.

* `parseStep_state` — **behind a drive no memory outside is used**, so that a step is one of `parseStepWrites`;
* `Text.next_separator` — **a separator does to the text what it does to the segments**;
* `parseLoop_behind` — **the two loops**, from any text behind the drive to the end of the path;
* `pathParse_agrees` — **what `parse_path` returns is left in the buffer, and it is canonical**.
-/

namespace Btos.User.Newlib

open User.Cmd List Option
open Lib.Buffer

/-! ### Steps that stay in the buffer -/

/-- `..` reads in the buffer if two characters stand before it. -/
theorem dotDot_eq (o : Outside) (hpos : 4 ≤ s.bpos) (hsize : s.bpos ≤ s.buffer.length)
    (hword : s.bpos < 2 ^ 32) : dotDot s = dotDotWrites o s := by
  have htwo : twoBefore (s.bpos - 2) = s.bpos - 4 := by
    rw [twoBefore]
    omega
  have h1 : write s.buffer (s.bpos - 1) nul = some (s.buffer.set (s.bpos - 1) nul) := if_pos (by omega)
  have h2 : write (s.buffer.set (s.bpos - 1) nul) (s.bpos - 2) nul =
      some ((s.buffer.set (s.bpos - 1) nul).set (s.bpos - 2) nul) := if_pos (by rw [length_set]; omega)
  obtain ⟨x, hx⟩ : ∃ x, ((s.buffer.set (s.bpos - 1) nul).set (s.bpos - 2) nul)[s.bpos - 4]? = some x :=
    ⟨_, getElem?_eq_getElem (by rw [length_set, length_set]; omega)⟩
  have hne : s.bpos - 2 ≠ 0 := by omega
  rw [dotDot, dotDotWrites, h1, bind_some, bind_some, h2, bind_some, bind_some]
  simp only [htwo, hx, bind_some, getD_some, if_neg hne]
  by_cases hzero : s.bpos - 4 = 0
  · rw [if_pos hzero, if_pos (.inl hzero)]
  · by_cases hcolon : x = ':'
    · rw [if_neg hzero, if_pos hcolon, if_pos (.inr hcolon)]
    · rw [if_neg hzero, if_neg hcolon, if_neg (not_or.mpr ⟨hzero, hcolon⟩)]

theorem parseStep_eq (o : Outside) (hsep : ¬ IsSeparator c) (s : PState) :
    parseStep c s = parseStepWrites o c s := by
  rw [parseStep, parseStepWrites]
  split
  · rfl
  · exact (if_neg hsep).trans (if_neg hsep).symm

section Step

variable {size ipos : ℕ} {t : Text}

theorem Text.Good.length_kept (hgood : t.Good) (hdrive : t.drive = true) : 2 ≤ t.kept.length := by
  rcases hgood.base with ⟨-, -, d, hd⟩ | ⟨hno, -⟩
  · rw [kept, hd, length_append, length_append]
    simp only [length_cons, length_nil]
    omega
  · rw [hdrive] at hno
    cases hno

/-- **Behind a drive no memory outside is used.** -/
theorem parseStep_state (o : Outside) (c : Char) (hgood : t.Good) (hdrive : t.drive = true)
    (hlen : t.cur.length < btMaxSegLen) (hsize : t.text.length < size) (hword : size ≤ 2 ^ 31) :
    parseStep c (t.state size ipos) = parseStepWrites o c (t.state size ipos) := by
  have hcopied : copiedSegment (t.state size ipos) = some t.cur := by rw [copiedSegment_state hgood, if_pos hlen.le]
  have hcurrent : currentSegment (t.state size ipos) = some t.cur := by
    have hsub : (t.state size ipos).bpos - (t.state size ipos).cstart = t.cur.length := by
      rw [Text.state, t.length_text, Nat.add_sub_cancel_left]
    rw [currentSegment, hsub, if_pos hlen]
    rw [copiedSegment, hsub, if_pos hlen.le] at hcopied
    exact hcopied
  rw [parseStep, parseStepWrites, separatorWrites, hcurrent, hcopied, bind_some, bind_some]
  by_cases hdd : t.cur = ['.', '.']
  · have hkept := hgood.length_kept hdrive
    have htext := t.length_text
    rw [hdd] at htext
    simp only [length_cons, length_nil] at htext
    have hbuffer : (t.state size ipos).buffer.length = size := length_pad hsize.le
    have hbpos : (t.state size ipos).bpos = t.text.length := rfl
    rw [dotDot_eq o (by omega) (by omega) (by omega)]
  · rw [if_neg hdd, if_neg hdd]

/-- **A step behind the drive is a step of the text.** -/
theorem parseStep_next (hcolon : c ≠ ':') (hgood : t.Good) (hdrive : t.drive = true)
    (hlen : t.cur.length < btMaxSegLen) (hsize : t.text.length < size) (hword : size ≤ 2 ^ 31) :
    parseStep c (t.state size ipos) = some (true, (t.next c).state size ipos) := by
  rw [parseStep_state ⟨fun _ => nul, []⟩ c hgood hdrive hlen hsize hword]
  by_cases hsep : IsSeparator c
  · have hkept : t.kept ≠ [] := by
      intro hnil
      have hlen := hgood.length_kept hdrive
      rw [hnil] at hlen
      exact absurd hlen (by decide)
    exact parseStepWrites_separator hgood hsep hlen.le (fun _ => hkept) hsize (by omega)
  · exact parseStepWrites_plain hcolon hsep hsize

/-- **A separator does to the text what it does to the segments**, but the end of the path leaves the last segment as
it is. -/
theorem Text.next_separator (hsep : IsSeparator c) (hbase : t.base ≠ [])
    (h : endSegment t.segs t.cur = some segs') : t.next c = { t with segs := segs', cur := [] } ∨
      (c ≠ '/' ∧ t.next c = t ∧ t.cur ≠ [] ∧ segs' = t.segs ++ [t.cur]) := by
  rw [next, if_neg hsep.ne_colon, if_pos hsep]
  rw [endSegment] at h
  by_cases hdd : t.cur = ['.', '.']
  · rw [if_pos hdd] at h ⊢
    left
    split at h
    · cases h
    · cases h
      rw [up]
      split
      · rename_i hnil _
        exact absurd hnil hbase
      · rfl
  · rw [if_neg hdd] at h ⊢
    by_cases hd : t.cur = ['.']
    · rw [if_pos (.inl hd), Option.some.injEq] at h
      rw [if_pos hd, h]
      exact .inl rfl
    · rw [if_neg hd]
      by_cases hnil : t.cur = []
      · rw [if_pos (.inr hnil), Option.some.injEq] at h
        rw [if_neg fun hend => hend.1 hnil, ← h, ← hnil]
        exact .inl rfl
      · rw [if_neg (not_or.mpr ⟨hd, hnil⟩), Option.some.injEq] at h
        by_cases hslash : c = '/'
        · rw [if_pos ⟨hnil, hslash⟩, h]
          exact .inl rfl
        · rw [if_neg fun hend => hslash hend.2]
          exact .inr ⟨hslash, rfl, hnil, h.symm⟩

end Step

/-! ### The loops -/

section

variable {size : ℕ} {name : List Char}

theorem parseLoop_cons {c : Char} {cs : List Char} {t t' : Text} {ipos : ℕ} (hsize : t.text.length < size) (hc : c ≠ nul)
    (hstep : parseStep c (t.state size ipos) = some (true, t'.state size ipos)) :
    parseLoop size (c :: cs) (t.state size ipos) = parseLoop size cs (t'.state size (ipos + 1)) := by
  rw [parseLoop, if_pos (show (t.state size ipos).bpos < size from hsize), hstep, bind_some]
  exact if_neg hc

/-- **The two loops behind the drive.** -/
theorem parseLoop_behind {segs' : List (List Char)} {st : Sections} (rest junk : List Char)
    (hword : size ≤ 2 ^ 31) (hrest : ∀ c ∈ rest, c ≠ nul ∧ c ≠ '\n') :
    ∀ {t : Text} (ipos : ℕ), t.Good → t.drive = true → t.base = name ++ [':'] ++ ['/'] →
      (∀ seg, seg <:+: t.cur ++ rest → Plain seg → seg.length < btMaxSegLen) → t.text.length + rest.length < size →
      pathLoop rest (behind (name ++ [':']) t.segs t.cur) = some st →
      st.slash = some (behind (name ++ [':']) segs' []) →
      ∃ (t' : Text) (ipos' : ℕ), parseLoop size (rest ++ nul :: junk) (t.state size ipos) = some (true, t'.state size ipos') ∧
        t'.Good ∧ t'.text.length ≤ size ∧ trimmed t'.text = render ((name ++ [':']) :: segs') := by
  induction rest with
  | nil =>
    intro t ipos hgood hdrive hbase hshort hsize hloop hslash
    cases hloop
    rw [slash_behind] at hslash
    obtain ⟨segs1, hend, heq⟩ := map_eq_some_iff.mp hslash
    simp only [behind, Sections.mk.injEq, cons.injEq, true_and, and_true] at heq
    subst heq
    have hsep : IsSeparator nul := .inr (.inr rfl)
    have hne : t.base ≠ [] := by simp [hbase]
    have hlen := hshort t.cur ⟨[], [], by simp⟩ hgood.cur.1
    have hstep := @parseStep_next size ipos t nul (by decide) hgood hdrive hlen hsize hword
    refine ⟨t.next nul, ipos + 1, ?_, hgood.next nul, (length_trimmed_next hgood hsep hsize).1, ?_⟩
    · rw [nil_append, parseLoop, if_pos (show (t.state size ipos).bpos < size from hsize), hstep, bind_some]
      exact if_pos rfl
    · rw [trimmed_text (hgood.next nul) ((Text.base_next (by decide) hne).1.trans hbase)]
      rcases t.next_separator hsep hne hend with hnext | ⟨-, hnext, hcur, rfl⟩
      · rw [hnext, if_pos rfl, append_nil]
      · rw [hnext, if_neg hcur]
  | cons c rest ih =>
    intro t ipos hgood hdrive hbase hshort hsize hloop hslash
    rw [length_cons] at hsize
    obtain ⟨hcnul, hcline⟩ := hrest c mem_cons_self
    have hne : t.base ≠ [] := by simp [hbase]
    have hlt : t.text.length < size := by omega
    have hrest' : ∀ c ∈ rest, c ≠ nul ∧ c ≠ '\n' := fun x hx => hrest x (mem_cons_of_mem _ hx)
    have hlen := hshort t.cur (prefix_append t.cur _).isInfix hgood.cur.1
    rw [pathLoop, pathStep_behind] at hloop
    by_cases hcolon : c = ':'
    · simp [hcolon] at hloop
    · obtain ⟨hnextBase, hnextDrive⟩ := Text.base_next hcolon hne
      rw [cons_append, parseLoop_cons hlt hcnul (parseStep_next hcolon hgood hdrive hlen hlt hword)]
      rw [if_neg hcolon] at hloop
      obtain ⟨hgrow, hinfix, hloop⟩ : (t.next c).text.length ≤ t.text.length + 1 ∧
          (t.next c).cur ++ rest <:+: t.cur ++ c :: rest ∧
          pathLoop rest (behind (name ++ [':']) (t.next c).segs (t.next c).cur) = some st := by
        by_cases hsl : c = '/'
        · -- the segment ends here, in both
          rw [if_pos hsl] at hloop
          obtain ⟨st', hst', hloop⟩ := bind_eq_some_iff.mp hloop
          obtain ⟨segs1, hend, rfl⟩ := map_eq_some_iff.mp hst'
          have hgrow := @length_next_le t c (.inl hsl)
          rw [(t.next_separator (.inl hsl) hne hend).resolve_right fun h => h.1 hsl] at hgrow ⊢
          exact ⟨hgrow, ⟨t.cur ++ [c], [], by simp⟩, hloop⟩
        · -- one more character of the segment, in both
          have hsep : ¬ IsSeparator c := by
            rintro (h | h | h)
            · exact hsl h
            · exact hcline h
            · exact hcnul h
          have hnext : t.next c = { t with cur := t.cur ++ [c] } := by rw [Text.next, if_neg hcolon, if_neg hsep]
          rw [if_neg hsl, bind_some] at hloop
          refine ⟨(length_next_plain hcolon hsep).le, ?_⟩
          rw [hnext]
          exact ⟨⟨[], [], by simp⟩, hloop⟩
      exact ih hrest' (ipos + 1) (hgood.next c) (hnextDrive.trans hdrive) (hnextBase.trans hbase)
        (fun seg hseg => hshort seg (hseg.trans hinfix)) (by omega) hloop hslash

theorem parseLoop_name {rest : List Char} (name : List Char) (hchars : ∀ c ∈ name, c ≠ ':' ∧ ¬ IsSeparator c) :
    ∀ {t : Text} {ipos : ℕ}, t.text.length + name.length < size →
      parseLoop size (name ++ rest) (t.state size ipos) =
        parseLoop size rest (Text.state size (ipos + name.length) { t with cur := t.cur ++ name }) := by
  induction name with
  | nil =>
    intro t ipos _
    rw [append_nil]
    rfl
  | cons c name ih =>
    intro t ipos hsize
    rw [length_cons] at hsize
    obtain ⟨hcolon, hsep⟩ := hchars c mem_cons_self
    have hstep : parseStep c (t.state size ipos) = some (true, (t.next c).state size ipos) := by
      rw [parseStep_eq ⟨fun _ => nul, []⟩ hsep]
      exact parseStepWrites_plain hcolon hsep (by omega)
    have hlen := @length_next_plain t c hcolon hsep
    rw [cons_append, parseLoop_cons (by omega) (fun h => hsep (.inr (.inr h))) hstep,
      ih (fun x hx => hchars x (mem_cons_of_mem _ hx)) (by omega), Text.next, if_neg hcolon, if_neg hsep,
      append_assoc, length_cons, Nat.add_assoc, Nat.add_comm 1]
    rfl

/-- **The drive**: behind its colon no segments have been read. -/
theorem parseLoop_drive (hne : name ≠ []) (hchars : ∀ c ∈ name, c ≠ ':' ∧ ¬ IsSeparator c)
    (hsize : name.length + 1 < size) : parseLoop size (name ++ ':' :: rest) (Text.empty.state size 0) =
      parseLoop size rest (Text.state size (name.length + 1) ⟨name ++ [':'] ++ ['/'], [], [], true⟩) := by
  have hpos := length_pos_iff.mpr hne
  have hlt : name.length < size := Nat.lt_of_succ_lt hsize
  have hstep : parseStep ':' (Text.state size (0 + name.length) ⟨[], [], [] ++ name, false⟩) =
      some (true, Text.state size (0 + name.length) ⟨name ++ [':'] ++ ['/'], [], [], true⟩) := by
    rw [parseStep_eq ⟨fun _ => nul, []⟩ (by decide), parseStepWrites_colon (by omega) rfl hsize, append_assoc]
    rfl
  have hname := @parseLoop_name size (':' :: rest) name hchars Text.empty 0
    ((Nat.zero_add name.length).trans_lt hlt)
  have hdrive := @parseLoop_cons size ':' rest ⟨[], [], [] ++ name, false⟩ _ _
    (by simpa [Text.text, Text.kept] using hlt) (by decide) hstep
  rw [Nat.zero_add] at hname hdrive
  exact hname.trans hdrive

end

/-! ### The path in memory -/

section

variable {cwd path : List Char}

theorem btosPathIsAbsolute_eq (path : List Char) : btosPathIsAbsolute path = isAbsolute path := by
  induction path with
  | nil => rfl
  | cons c cs ih =>
    rw [btosPathIsAbsolute, isAbsolute, ih]
    by_cases hcolon : c = ':'
    · simp [hcolon]
    · simp [hcolon]

theorem btosGetDriveEnd_of_plain (h : Plain name) (rest : List Char) :
    btosGetDriveEnd (name ++ ':' :: rest) = name.length := by
  have hnone : name.findIdx? (fun c => c = ':') = none := by
    rw [findIdx?_eq_none_iff]
    intro c hc
    simp only [decide_eq_false_iff_not]
    rintro rfl
    exact h.2 hc
  simp [btosGetDriveEnd, findIdx?_append, hnone, findIdx?_cons]

theorem strncpy_drive (hplain : Plain name) (hname : name.length < btMaxPath) (rest : List Char) :
    strncpy (replicate btMaxPath nul) 0 ((name ++ ':' :: rest).take btMaxPath)
        (btosGetDriveEnd ((name ++ ':' :: rest).take btMaxPath)) = pad nul btMaxPath name := by
  obtain ⟨n, hn⟩ : ∃ n, btMaxPath - name.length = n + 1 := ⟨btMaxPath - name.length - 1, by omega⟩
  have htake : (name ++ ':' :: rest).take btMaxPath = name ++ ':' :: rest.take n := by
    rw [take_append, take_of_length_le hname.le, hn, take_succ_cons]
  have hle : name.length ≤ (name ++ ':' :: rest.take n).length := (prefix_append _ _).length_le
  rw [htake, btosGetDriveEnd_of_plain hplain, strncpy_take hle, take_left]

/-- **Both parsers read the same text.** -/
theorem pathMemory_eq (hcwd : IsDirectory cwd) (hcwdNul : nul ∉ cwd)
    (hlen : (joined cwd path).length ≤ btMaxPath) :
    pathMemory cwd path = pad nul btMaxPath (joined cwd path) := by
  obtain ⟨name, rest, rfl, -, hplain⟩ := hcwd
  have hnameNul : nul ∉ name := fun h => hcwdNul (mem_append_left _ h)
  simp only [pathMemory, btosPathIsAbsolute_eq, joined] at hlen ⊢
  by_cases habs : isAbsolute path = true
  · simp only [habs, ite_true] at hlen ⊢
    exact strncpy_replicate hlen
  · by_cases hroot : path.head? = some '/'
    · simp only [habs, hroot, ite_true, ite_false, getDrive_of_plain hplain, Bool.false_eq_true,
        length_append, length_singleton] at hlen ⊢
      rw [strncpy_drive hplain (by omega), appendTo_pad hnameNul (by simp; omega), appendTo_pad]
      · simp only [mem_append, mem_singleton, not_or]
        exact ⟨hnameNul, by decide⟩
      · rw [length_append, length_singleton]
        exact hlen
    · simp only [habs, hroot, ite_false, Bool.false_eq_true] at hlen ⊢
      rw [length_append, length_append, length_singleton] at hlen
      rw [strncpy_replicate (by omega), appendTo_pad hcwdNul (by rw [length_singleton]; omega), appendTo_pad]
      · simp only [@mem_append _ _ (name ++ ':' :: '/' :: rest), mem_singleton, not_or]
        exact ⟨hcwdNul, by decide⟩
      · rw [length_append, length_singleton]
        exact hlen

theorem nul_not_mem_joined (hcwd : nul ∉ cwd) (hpath : nul ∉ path) (hdir : IsDirectory cwd) :
    nul ∉ joined cwd path := by
  obtain ⟨name, rest, rfl, -, hplain⟩ := hdir
  have hname : nul ∉ name := fun h => hcwd (mem_append_left _ h)
  have hcolon : nul ≠ ':' := by decide
  have hslash : nul ≠ '/' := by decide
  simp only [joined]
  split
  · exact hpath
  · split
    · rw [getDrive_of_plain hplain]
      simp [hname, hcolon, hpath]
    · rw [mem_append, mem_append, mem_singleton]
      simp [hcwd, hslash, hpath]

end

/-! ### The agreement -/

/-- **The whole loop**, over a text that starts with a drive. -/
theorem parseLoop_text (hplain : Plain name)
    (hname : name ≠ []) (hchars : ∀ c ∈ name ++ ':' :: rest, c ≠ nul ∧ c ≠ '\n')
    (hlen : (name ++ ':' :: rest).length ≤ btMaxPath - 2)
    (hshort : ∀ seg, seg <:+: name ++ ':' :: rest → Plain seg → seg.length < btMaxSegLen)
    (hloop : pathLoop rest (behind (name ++ [':']) [] []) = some (behind (name ++ [':']) segs cur))
    (hend : endSegment segs cur = some segs') : nul ∉ render ((name ++ [':']) :: segs') ∧
      ∃ s, parseLoop btMaxPath (pad nul btMaxPath (name ++ ':' :: rest))
          ⟨replicate btMaxPath nul, 0, 0, 0, false⟩ = some (true, s) ∧
        trimSlash s = some (pad nul btMaxPath (render ((name ++ [':']) :: segs'))) := by
  have hmax : btMaxPath = 1024 := rfl
  -- behind the text there is a zero character
  obtain ⟨n, hn⟩ : ∃ n, btMaxPath - (name ++ ':' :: rest).length = n + 1 :=
    ⟨btMaxPath - (name ++ ':' :: rest).length - 1, by omega⟩
  have hmem : pad nul btMaxPath (name ++ ':' :: rest) = name ++ ':' :: (rest ++ nul :: replicate n nul) := by
    rw [pad, hn, replicate_succ]
    simp
  rw [length_append, length_cons] at hlen
  have hslash : (behind (name ++ [':']) segs cur).slash = some (behind (name ++ [':']) segs' []) := by
    rw [slash_behind, hend]
    rfl
  have hnameChars : ∀ c ∈ name, c ≠ ':' ∧ ¬ IsSeparator c := by
    intro c hc
    obtain ⟨hnul, hline⟩ := hchars c (mem_append_left _ hc)
    refine ⟨fun h => hplain.2 (h ▸ hc), ?_⟩
    rintro (h | h | h)
    · exact hplain.1 (h ▸ hc)
    · exact hline h
    · exact hnul h
  have hstart : (⟨name ++ [':'] ++ ['/'], [], [], true⟩ : Text).Good := by
    have hname : Plain name ∧ nul ∉ name := ⟨hplain, fun h => (hnameChars nul h).2 (.inr (.inr rfl))⟩
    have hgood := (Text.good_empty.of_segs Text.good_empty.segs hname).next ':'
    rw [append_assoc]
    exact hgood
  obtain ⟨t, ipos, hrun, hgood, hsize, htrim⟩ := @parseLoop_behind btMaxPath name segs' _ rest (replicate n nul)
    (by decide) (fun c hc => hchars c (by simp [hc])) ⟨name ++ [':'] ++ ['/'], [], [], true⟩ (name.length + 1) hstart rfl rfl
    (fun seg hseg => hshort seg (hseg.trans ⟨name ++ [':'], [], by simp⟩))
    (by simp [Text.text, Text.kept]; omega) hloop hslash
  refine ⟨fun h => hgood.nul_text ((trimmed_sublist _).subset (htrim ▸ h)), t.state btMaxPath ipos, ?_, ?_⟩
  · rw [hmem, ← hrun, ← parseLoop_drive hname hnameChars (by omega)]
    rfl
  · rw [Text.state, trimSlash_pad hsize, htrim]

/-- **The two parsers agree, and what they return is canonical.**  No text between separators is longer than a
segment may be. -/
theorem pathParse_agrees (cwd path buffer : List Char) (hcwd : IsDirectory cwd) (hcwdNul : nul ∉ cwd)
    (hpathNul : nul ∉ path) (hline : '\n' ∉ joined cwd path) (hlen : (joined cwd path).length ≤ btMaxPath - 2)
    (hshort : ∀ seg, seg <:+: joined cwd path → Plain seg → seg.length < btMaxSegLen)
    (hbuffer : buffer.length = btMaxPath) (hne : parsePath cwd path ≠ []) :
    (∃ b, btosPathParse cwd path buffer btMaxPath = some (true, b) ∧ cString b = parsePath cwd path) ∧
      Canonical (parsePath cwd path) ∧ ∀ cwd', parsePath cwd' (parsePath cwd path) = parsePath cwd path := by
  have hcanonical := canonical_parsePath hcwd hne
  refine ⟨?_, hcanonical, parsePath_of_canonical hcanonical⟩
  have hmem := pathMemory_eq hcwd hcwdNul (hlen.trans (Nat.sub_le _ _))
  have hchars : ∀ c ∈ joined cwd path, c ≠ nul ∧ c ≠ '\n' := by
    intro c hc
    refine ⟨?_, ?_⟩
    · rintro rfl
      exact nul_not_mem_joined hcwdNul hpathNul hcwd hc
    · rintro rfl
      exact hline hc
  obtain ⟨name, rest, hjoined, hplain⟩ := exists_joined hcwd path
  obtain ⟨hname, segs, cur, segs', hloop, hend, -, hparse⟩ := parsePath_cases hjoined hplain hne
  rw [hjoined] at hmem hchars hlen hshort
  obtain ⟨hnul, s, hrun, htrim⟩ := parseLoop_text hplain hname hchars hlen hshort hloop hend
  have hzero : replicate btMaxPath nul ++ buffer.drop btMaxPath = replicate btMaxPath nul := by
    rw [drop_eq_nil_of_le hbuffer.le, append_nil]
  refine ⟨_, ?_, (cString_pad hnul btMaxPath).trans hparse.symm⟩
  simp only [btosPathParse]
  rw [hzero, hmem, hrun, bind_some, if_pos rfl, htrim]
  rfl

/-- At the path `..//c/./d` in `A:/b`. -/
theorem pathParse_agrees_dots :
    parsePath "A:/b".toList "..//c/./d".toList = "A:/c/d".toList ∧
      ∃ b, btosPathParse "A:/b".toList "..//c/./d".toList (replicate btMaxPath nul) btMaxPath =
        some (true, b) ∧ cString b = "A:/c/d".toList := by
  have hparse : parsePath "A:/b".toList "..//c/./d".toList = "A:/c/d".toList := by decide
  refine ⟨hparse, ?_⟩
  rw [← hparse]
  refine (pathParse_agrees "A:/b".toList "..//c/./d".toList (replicate btMaxPath nul)
    ⟨['A'], ['b'], rfl, by decide, by simp [Plain]⟩ (by decide) (by decide) (by decide) (by decide) ?_
    length_replicate (by decide)).1
  intro seg hseg _
  exact Nat.lt_of_le_of_lt hseg.length_le (by decide)

/-- **A newline in the current directory** is dropped by the C library, and kept by `parse_path`. -/
theorem pathParse_newline :
    IsDirectory "A:/x\ny".toList ∧ parsePath "A:/x\ny".toList ['z'] = "A:/x\ny/z".toList ∧
      ∃ b, btosPathParse "A:/x\ny".toList ['z'] (replicate btMaxPath nul) btMaxPath = some (true, b) ∧
        cString b = "A:/xy/z".toList := by
  refine ⟨⟨['A'], ['x', '\n', 'y'], rfl, by decide, by simp [Plain]⟩, by decide, ?_⟩
  have hrun : (btosPathParse "A:/x\ny".toList ['z'] (replicate btMaxPath nul) btMaxPath).map
      (fun r => (r.1, cString r.2)) = some (true, "A:/xy/z".toList) := by
    decide +kernel
  obtain ⟨⟨ok, b⟩, hb, heq⟩ := map_eq_some_iff.mp hrun
  simp only [Prod.mk.injEq] at heq
  exact ⟨b, by rw [hb, heq.1], heq.2⟩

end Btos.User.Newlib
