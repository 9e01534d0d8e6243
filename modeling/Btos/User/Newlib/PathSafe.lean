import Btos.User.Newlib.PathText

/-!
# When `btos_path_parse` is safe

The function tests once for each character of the path that there is room in the buffer, but a colon takes two places, the
zero character at the end needs one more, a segment is copied to an array of its own without a test, and `..` goes back
over whatever is there.

* `Fits` — **the condition**: at every character, the text that has been kept so far leaves room for it;
* `pathParse_safe_iff` — **the function is safe, whatever is in the memory around its arrays, exactly if the path fits**.
-/

namespace Btos.User.Newlib

open User.Cmd List Option
open Lib.Buffer

/-! ### The string in the buffer -/

/-- The text without a slash at its end, unless that is the drive's or stands alone. -/
def trimmed (l : List Char) : List Char :=
  if l.getLast? = some '/' ∧ 1 < l.length ∧ l.dropLast.getLast? ≠ some ':' then l.dropLast else l

theorem trimmed_slash (hx : x ≠ ':') : trimmed (p ++ [x] ++ ['/']) = p ++ [x] := by
  rw [trimmed, if_pos, dropLast_concat]
  refine ⟨getLast?_concat, by simp, ?_⟩
  rw [dropLast_concat]
  simpa using hx

theorem trimmed_plain (hx : x ≠ '/') : trimmed (p ++ [x]) = p ++ [x] := by
  rw [trimmed, if_neg]
  rintro ⟨hlast, -⟩
  rw [getLast?_concat, some.injEq] at hlast
  exact hx hlast

theorem trimmed_drive (p : List Char) : trimmed (p ++ [':'] ++ ['/']) = p ++ [':'] ++ ['/'] := by
  rw [trimmed, if_neg]
  rintro ⟨-, -, hcolon⟩
  rw [dropLast_concat, getLast?_concat] at hcolon
  exact hcolon rfl

theorem trimmed_sublist (l : List Char) : (trimmed l).Sublist l := by
  rw [trimmed]
  split
  · exact dropLast_sublist l
  · exact List.Sublist.refl l

/-- **What is left in the buffer**: the drive and the segments. -/
theorem trimmed_text {t : Text} {n : List Char} (hgood : t.Good) (hbase : t.base = n ++ [':'] ++ ['/']) :
    trimmed t.text = render ((n ++ [':']) :: (t.segs ++ if t.cur = [] then [] else [t.cur])) := by
  have hkept : t.kept = n ++ [':'] ++ (t.segs.flatMap fun s => '/' :: s) ++ ['/'] := by
    rw [Text.kept, hbase, slash_flatMap]
  by_cases hcur : t.cur = []
  · rw [Text.text, hcur, append_nil, hkept, if_pos rfl, append_nil]
    rcases eq_nil_or_concat' t.segs with hsegs | ⟨front, last, hsegs⟩
    · rw [hsegs, render_singleton, flatMap_nil, append_nil, trimmed_drive]
    · obtain ⟨hne, hplain, -⟩ := hgood.segs last (by rw [hsegs]; simp)
      obtain ⟨init, x, hlast, -, hx⟩ := Text.exists_concat hplain hne
      have hsplit : n ++ [':'] ++ (t.segs.flatMap fun s => '/' :: s) =
          n ++ [':'] ++ (front.flatMap fun s => '/' :: s) ++ '/' :: init ++ [x] := by
        rw [hsegs, hlast]
        simp
      rw [render_cons (by rw [hsegs]; simp), hsplit, trimmed_slash hx]
  · obtain ⟨init, x, hx, hslash, -⟩ := Text.exists_concat hgood.cur.1 hcur
    have htext : t.text = t.kept ++ init ++ [x] := by rw [Text.text, hx, append_assoc]
    rw [htext, trimmed_plain hslash, if_neg hcur, render_cons (by simp), hkept]
    simp [hx]

theorem trimSlash_pad (hsize : l.length ≤ size) :
    trimSlash ⟨pad nul size l, l.length, ipos, cstart, drive⟩ = some (pad nul size (trimmed l)) := by
  rcases eq_nil_or_concat' l with rfl | ⟨p, z, rfl⟩
  · rfl
  · rcases eq_nil_or_concat' p with rfl | ⟨q, y, rfl⟩
    · simp [trimSlash, trimmed]
    · have hlen : (q ++ [y] ++ [z]).length = q.length + 2 := by
        rw [length_append, length_append]
        rfl
      have hz : (pad nul size (q ++ [y] ++ [z]))[q.length + 2 - 1]? = some z := by
        rw [getElem?_pad_of_lt (by omega)]
        simp
      have hy : (pad nul size (q ++ [y] ++ [z]))[q.length + 2 - 2]? = some y := by
        rw [getElem?_pad_of_lt (by omega)]
        simp
      have hpop : write (pad nul size (q ++ [y] ++ [z])) (q.length + 2 - 1) nul = some (pad nul size (q ++ [y])) := by
        have hpos : q.length + 2 - 1 = (q ++ [y]).length := by rw [length_append]; rfl
        rw [hpos]
        exact write_pad_pop (by omega)
      simp only [trimSlash, hlen, show q.length + 2 > 1 by omega, if_true, hz, hy, bind_some, hpop]
      by_cases hslash : z = '/'
      · subst hslash
        by_cases hcolon : y = ':'
        · rw [hcolon, trimmed_drive, if_neg (by simp)]
        · rw [if_pos ⟨rfl, hcolon⟩, trimmed_slash hcolon]
      · rw [if_neg (fun h => hslash h.1), trimmed_plain hslash]

/-- **The end of the loop.** -/
theorem finish_state {size ipos : ℕ} {t : Text} (hsize : t.text.length ≤ size) :
    finish (t.state size ipos) = .returned true (pad nul size (trimmed t.text)) := by
  rw [finish, Text.state, trimSlash_pad hsize]

theorem safe_finish_iff {size ipos : ℕ} {t : Text} (hgood : t.Good) (hsize : t.text.length ≤ size) :
    (finish (t.state size ipos)).Safe ↔ (trimmed t.text).length < size := by
  rw [finish_state hsize, Outcome.Safe, pad, mem_append, mem_replicate]
  constructor
  · intro h
    rcases h rfl with hmem | ⟨hpos, -⟩
    · exact absurd ((trimmed_sublist _).subset hmem) hgood.nul_text
    · omega
  · intro h _
    exact .inr ⟨by omega, rfl⟩

theorem length_trimmed_le (l : List Char) : (trimmed l).length ≤ l.length := (trimmed_sublist l).length_le

/-! ### Room for every character -/

/-- **The path fits**: what is left of the path, behind a text that has been kept. -/
def Fits (size : ℕ) (t : Text) (first : Bool) : List Char → Prop
  -- the path is not ended in its array
  | [] => False
  | c :: cs =>
      if c = ':' then
        first = true ∨ t.drive = true ∨ (t.text.length + 2 < size ∧ Fits size (t.next c) false cs)
      else if IsSeparator c then
        t.cur.length ≤ btMaxSegLen ∧ (t.cur = ['.', '.'] → t.kept ≠ []) ∧
          -- a slash in the last place of the buffer is overwritten by the zero character
          (c = nul ∨ (t.next c).text.length = size ∨ Fits size (t.next c) false cs)
      else t.text.length + 1 < size ∧ Fits size (t.next c) false cs

instance decidableFits (size : ℕ) (t : Text) (first : Bool) : (cs : List Char) → Decidable (Fits size t first cs)
  | [] => .isFalse id
  | c :: cs =>
      have := decidableFits size (t.next c) false cs
      inferInstanceAs (Decidable (if c = ':' then _ else if IsSeparator c then _ else _))

theorem length_up (t : Text) : t.up.text.length ≤ t.kept.length := by
  rw [Text.up]
  split
  · rename_i s hbase hsegs
    split
    · rw [Text.text, append_nil, Text.kept, Text.kept]
    · rw [Text.kept, hbase, hsegs]
      simp [Text.text, Text.kept]
  · rcases eq_nil_or_concat' t.segs with hsegs | ⟨front, last, hsegs⟩
    · rw [Text.text, append_nil, Text.kept, Text.kept, hsegs, dropLast_nil]
    · rw [Text.text, Text.kept, Text.kept, hsegs]
      simp

/-- **What a separator does to the length.** -/
theorem length_next_separator (t : Text) (hsep : IsSeparator c) : (t.next c).text.length ≤ t.text.length ∨
      (c = '/' ∧ t.cur ≠ [] ∧ (t.next c).text = t.text ++ ['/']) := by
  rw [Text.next, if_neg hsep.ne_colon, if_pos hsep]
  split
  · have hup := length_up t
    rw [t.length_text]
    omega
  · split
    · left
      rw [Text.text, Text.text, append_nil, length_append]
      exact Nat.le_add_right _ _
    · split
      · rename_i hend
        refine .inr ⟨hend.2, hend.1, ?_⟩
        simp [Text.text, Text.kept]
      · exact .inl (Nat.le_refl _)

theorem length_next_le (t : Text) {c : Char} (hsep : IsSeparator c) : (t.next c).text.length ≤ t.text.length + 1 := by
  rcases length_next_separator t hsep with h | ⟨-, -, h⟩
  · omega
  · rw [h, length_append, length_singleton]

/-! ### The loop -/

section

variable {size ipos : ℕ} {t : Text} {o : Outside}

theorem loopWrites_full (hfull : t.text.length = size) (cs : List Char) :
    loopWrites o size cs (t.state size ipos) = finish (t.state size ipos) := by
  have hpos : ¬ (t.state size ipos).bpos < size := Nat.not_lt.mpr hfull.ge
  cases cs with
  | nil | cons c cs => rw [loopWrites, if_neg hpos]

theorem loopWrites_step {t' : Text} {c : Char} {cs : List Char} (hsize : t.text.length < size) (hc : c ≠ nul)
    (hstep : parseStepWrites o c (t.state size ipos) = some (true, t'.state size ipos)) :
    loopWrites o size (c :: cs) (t.state size ipos) = loopWrites o size cs (t'.state size (ipos + 1)) := by
  rw [loopWrites, if_pos (show (t.state size ipos).bpos < size from hsize), hstep]
  exact if_neg hc

theorem loopWrites_nul {t' : Text} {cs : List Char} (hsize : t.text.length < size)
    (hstep : parseStepWrites o nul (t.state size ipos) = some (true, t'.state size ipos)) :
    loopWrites o size (nul :: cs) (t.state size ipos) = finish (t'.state size (ipos + 1)) := by
  rw [loopWrites, if_pos (show (t.state size ipos).bpos < size from hsize), hstep]
  exact if_pos rfl

theorem loopWrites_wrote (hsize : t.text.length < size)
    (hstep : parseStepWrites o c (t.state size ipos) = none) :
    loopWrites o size (c :: cs) (t.state size ipos) = .wrote := by
  rw [loopWrites, if_pos (show (t.state size ipos).bpos < size from hsize), hstep]

theorem loopWrites_fill (hcolon : x ≠ ':') (hsep : ¬ IsSeparator x) (n : ℕ) :
    ∀ {t : Text} {ipos : ℕ}, t.Good → t.text.length + n = size → (n = 0 → trimmed t.text = t.text) →
      ¬ (loopWrites o size (List.replicate n x) (t.state size ipos)).Safe := by
  induction n with
  | zero =>
    intro t ipos hgood hfull htrim
    rw [loopWrites_full hfull, safe_finish_iff hgood hfull.le, htrim rfl, Nat.not_lt]
    exact hfull.ge
  | succ n ih =>
    intro t ipos hgood hfull _
    have hlt : t.text.length < size := by omega
    have hx : x ≠ nul := fun h => hsep (.inr (.inr h))
    have hlen := @length_next_plain t x hcolon hsep
    rw [replicate_succ, loopWrites_step hlt hx (parseStepWrites_plain hcolon hsep hlt)]
    refine ih (hgood.next x) ?_ fun _ => ?_
    · omega
    · rw [text_next_plain hcolon hsep, trimmed_plain fun h => hsep (.inl h)]

end

/-- **The text that is left**; there is none if the path is refused. -/
def readPath (size : ℕ) (t : Text) (first : Bool) : List Char → Option Text
  | [] => none
  | c :: cs =>
      if c = ':' ∧ (first = true ∨ t.drive = true) then none
      else if c = nul ∨ (t.next c).text.length = size then some (t.next c)
      else readPath size (t.next c) false cs

theorem length_trimmed_next {size : ℕ} {t : Text} {c : Char} (hgood : t.Good) (hsep : IsSeparator c)
    (hsize : t.text.length < size) : (t.next c).text.length ≤ size ∧ (trimmed (t.next c).text).length < size := by
  rcases length_next_separator t hsep with hle | ⟨-, hne, htext⟩
  · exact ⟨by omega, lt_of_le_of_lt (length_trimmed_le _) (by omega)⟩
  · obtain ⟨init, x, hcur, -, hx⟩ := Text.exists_concat hgood.cur.1 hne
    have hsplit : t.text = (t.kept ++ init) ++ [x] := by rw [Text.text, hcur, append_assoc]
    rw [htext]
    refine ⟨by rw [length_append]; exact hsize, ?_⟩
    rw [hsplit, trimmed_slash hx, ← hsplit]
    exact hsize

/-- **What is returned**, with the text that is left. -/
def Returns (size : ℕ) (r : Option Text) (out : Outcome) : Prop :=
  (r = none ∧ ∃ b, out = .returned false b) ∨ ∃ t', r = some t' ∧ t'.Good ∧ (trimmed t'.text).length < size ∧
    out = .returned true (pad nul size (trimmed t'.text))

/-- **A path that fits is read**, whatever is outside. -/
theorem loopWrites_of_fits {size : ℕ} (o : Outside) (more : List Char) {cs : List Char} :
    ∀ {t : Text} {ipos : ℕ}, t.Good → t.text.length < size → t.text.length + 2 * cs.length < 2 ^ 32 →
      Fits size t (ipos = 0) cs →
      Returns size (readPath size t (ipos = 0) cs) (loopWrites o size (cs ++ more) (t.state size ipos)) := by
  induction cs with
  | nil =>
    intro t ipos _ _ _ hfits
    exact hfits.elim
  | cons c cs ih =>
    intro t ipos hgood hsize hword hfits
    rw [length_cons] at hword
    rw [Fits] at hfits
    rw [cons_append]
    -- the character is read, and there is room for more
    have hgo : ¬ (c = ':' ∧ (decide (ipos = 0) = true ∨ t.drive = true)) → c ≠ nul → (t.next c).text.length < size →
        (t.next c).text.length ≤ t.text.length + 2 →
        parseStepWrites o c (t.state size ipos) = some (true, (t.next c).state size ipos) →
        Fits size (t.next c) false cs → Returns size (readPath size t (ipos = 0) (c :: cs))
          (loopWrites o size (c :: (cs ++ more)) (t.state size ipos)) := by
      intro hread hnul hlt hle hstep hrest
      rw [readPath, if_neg hread, if_neg (not_or.mpr ⟨hnul, hlt.ne⟩), loopWrites_step hsize hnul hstep]
      exact @ih _ (ipos + 1) (hgood.next c) hlt (by omega) hrest
    by_cases hcolon : c = ':'
    · rw [if_pos hcolon] at hfits
      by_cases hrefused : ipos = 0 ∨ t.drive = true
      · left
        refine ⟨?_, (t.state size ipos).buffer, ?_⟩
        · rw [readPath, if_pos]
          exact ⟨hcolon, hrefused.imp (fun h => decide_eq_true h) id⟩
        · rw [loopWrites, if_pos (show (t.state size ipos).bpos < size from hsize), hcolon,
            parseStepWrites_refused hrefused]
      · rw [not_or, Bool.not_eq_true] at hrefused
        obtain ⟨hroom, hrest⟩ := (hfits.resolve_left (by simpa using hrefused.1)).resolve_left (by simp [hrefused.2])
        have hlen : (t.next c).text.length = t.text.length + 2 := by
          rw [hcolon, text_next_colon, length_append]
          rfl
        refine hgo (by simp [hrefused]) (by rw [hcolon]; decide) (by omega) hlen.le ?_ hrest
        rw [hcolon]
        exact parseStepWrites_colon hrefused.1 hrefused.2 (by omega)
    · rw [if_neg hcolon] at hfits
      by_cases hsep : IsSeparator c
      · rw [if_pos hsep] at hfits
        obtain ⟨hlong, htop, hrest⟩ := hfits
        have hstep := @parseStepWrites_separator size ipos o t c hgood hsep hlong htop hsize (by omega)
        obtain ⟨hle, htrim⟩ := length_trimmed_next hgood hsep hsize
        by_cases hnul : c = nul
        · right
          refine ⟨t.next c, ?_, hgood.next c, htrim, ?_⟩
          · rw [readPath, if_neg (fun h => hcolon h.1), if_pos (.inl hnul)]
          · subst hnul
            rw [loopWrites_nul hsize hstep, finish_state hle]
        · by_cases hfull : (t.next c).text.length = size
          · right
            refine ⟨t.next c, ?_, hgood.next c, htrim, ?_⟩
            · rw [readPath, if_neg (fun h => hcolon h.1), if_pos (.inr hfull)]
            · rw [loopWrites_step hsize hnul hstep, loopWrites_full hfull, finish_state hle]
          · exact hgo (fun h => hcolon h.1) hnul (by omega) ((length_next_le t hsep).trans (Nat.le_succ _)) hstep
              ((hrest.resolve_left hnul).resolve_left hfull)
      · rw [if_neg hsep] at hfits
        obtain ⟨hroom, hrest⟩ := hfits
        have hlen := @length_next_plain t c hcolon hsep
        exact hgo (fun h => hcolon h.1) (fun h => hsep (.inr (.inr h))) (by omega) (by omega)
          (parseStepWrites_plain hcolon hsep hsize) hrest

/-- **A path that does not fit** is not safe, with something in the memory around the arrays. -/
theorem unsafe_of_not_fits {size : ℕ} {cs : List Char} :
    ∀ {t : Text} {ipos : ℕ}, t.Good → t.text.length < size → t.text.length + 2 * cs.length < 2 ^ 32 →
      ¬ Fits size t (ipos = 0) cs →
      ∃ o : Outside, ¬ (loopWrites o size (cs ++ o.path) (t.state size ipos)).Safe := by
  induction cs with
  | nil =>
    intro t ipos hgood hsize _ _
    refine ⟨⟨fun _ => nul, List.replicate (size - t.text.length) 'a'⟩, ?_⟩
    exact loopWrites_fill (by decide) (by decide) _ hgood (by omega) (fun h => absurd h (by omega))
  | cons c cs ih =>
    intro t ipos hgood hsize hword hfits
    rw [length_cons] at hword
    rw [Fits] at hfits
    simp only [cons_append]
    have hwrote : (∀ o, (∀ i, o.buffer i ≠ ':') → parseStepWrites o c (t.state size ipos) = none) →
        ∃ o : Outside, ¬ (loopWrites o size (c :: (cs ++ o.path)) (t.state size ipos)).Safe := by
      intro hstep
      refine ⟨⟨fun _ => nul, []⟩, ?_⟩
      rw [loopWrites_wrote hsize (hstep _ fun _ => show nul ≠ ':' by decide)]
      exact id
    -- a step leads to a text behind which the rest does not fit, or one that fills the buffer
    have hrest : ∀ {k : ℕ}, c ≠ nul → (t.next c).text.length = t.text.length + k → k ≤ 2 → t.text.length + k ≤ size →
        (∀ o, parseStepWrites o c (t.state size ipos) = some (true, (t.next c).state size ipos)) →
        trimmed (t.next c).text = (t.next c).text →
        ¬ (t.text.length + k < size ∧ Fits size (t.next c) false cs) →
        ∃ o : Outside, ¬ (loopWrites o size (c :: (cs ++ o.path)) (t.state size ipos)).Safe := by
      intro k hnul hlen hk hle hstep htrim hno
      by_cases hroom : t.text.length + k < size
      · obtain ⟨o, ho⟩ := @ih (t.next c) (ipos + 1) (hgood.next c) (by omega) (by omega) fun h => hno ⟨hroom, h⟩
        exact ⟨o, by rw [loopWrites_step hsize hnul (hstep o)]; exact ho⟩
      · refine ⟨⟨fun _ => nul, []⟩, ?_⟩
        rw [loopWrites_step hsize hnul (hstep _), loopWrites_full (by omega),
          safe_finish_iff (hgood.next c) (by omega), htrim]
        omega
    by_cases hcolon : c = ':'
    · rw [if_pos hcolon, not_or, not_or] at hfits
      obtain ⟨hfirst, hdrive, hno⟩ := hfits
      have hipos : ipos ≠ 0 := fun h => hfirst (decide_eq_true h)
      rw [Bool.not_eq_true] at hdrive
      subst hcolon
      by_cases hroom : t.text.length + 1 < size
      · have htext := text_next_colon t
        refine hrest (by decide) (by rw [htext, length_append]; rfl) (Nat.le_refl 2) (by omega)
          (fun o => parseStepWrites_colon hipos hdrive hroom) ?_ hno
        rw [htext, show t.text ++ [':', '/'] = t.text ++ [':'] ++ ['/'] by simp, trimmed_drive]
      · exact hwrote fun o _ => parseStepWrites_colon_full hipos hdrive (by omega)
    · rw [if_neg hcolon] at hfits
      by_cases hsep : IsSeparator c
      · rw [if_pos hsep, not_and, not_and] at hfits
        by_cases hlong : t.cur.length ≤ btMaxSegLen
        · by_cases htop : t.cur = ['.', '.'] → t.kept ≠ []
          · have hno := hfits hlong htop
            simp only [not_or] at hno
            obtain ⟨hnul, hfull, hno⟩ := hno
            have hgrow := length_next_le t hsep
            obtain ⟨o, ho⟩ := @ih (t.next c) (ipos + 1) (hgood.next c) (by omega) (by omega) hno
            refine ⟨o, ?_⟩
            rw [loopWrites_step hsize hnul (parseStepWrites_separator hgood hsep hlong htop hsize (by omega))]
            exact ho
          · rw [Classical.not_imp, not_not] at htop
            exact hwrote fun o ho => parseStepWrites_top hgood hsep htop.1 htop.2 ho hsize
        · exact hwrote fun o _ => parseStepWrites_long hgood hsep (Nat.not_le.mp hlong)
      · rw [if_neg hsep] at hfits
        refine hrest (fun h => hsep (.inr (.inr h))) (length_next_plain hcolon hsep) (by omega) (by omega)
          (fun o => parseStepWrites_plain hcolon hsep hsize) ?_ hfits
        rw [text_next_plain hcolon hsep, trimmed_plain fun h => hsep (.inl h)]

/-! ### The function -/

theorem length_pathMemory (cwd opath : List Char) : (pathMemory cwd opath).length = btMaxPath := by
  have hstrncpy : ∀ {path src : List Char} {k n : ℕ}, path.length = btMaxPath → k + n ≤ btMaxPath →
      (strncpy path k src n).length = btMaxPath := by
    intro path src k n hpath hle
    simp only [strncpy, length_append, length_take, length_replicate, length_drop, hpath]
    omega
  have hstring : ∀ l : List Char, (cString l).length ≤ l.length := fun l => (takeWhile_sublist _).length_le
  have happend : ∀ {path src : List Char}, path.length = btMaxPath → (appendTo path src).length = btMaxPath := by
    intro path src hpath
    have hle := hstring path
    exact hstrncpy hpath (by omega)
  rw [pathMemory]
  split
  · exact hstrncpy length_replicate (Nat.zero_add _).le
  · split
    · refine happend (happend (hstrncpy length_replicate ?_))
      rw [btosGetDriveEnd, Nat.zero_add]
      cases hfind : (cwd.take btMaxPath).findIdx? (fun c => c = ':') with
      | none => exact Nat.zero_le _
      | some i =>
        have hlt := (findIdx?_eq_some_iff_getElem.mp hfind).1
        rw [length_take] at hlt
        exact (lt_of_lt_of_le hlt (Nat.min_le_left _ _)).le
    · exact happend (happend (hstrncpy length_replicate (Nat.zero_add _).le))

/-- **`btos_path_parse` is safe exactly if the path fits.** -/
theorem pathParse_safe_iff (cwd opath : List Char) (size : ℕ) (hnul : nul ∉ cwd) (hcwd : cwd.length < btMaxPath)
    (hsize : 1 ≤ size) : (∀ o, (btosPathParseWrites o cwd opath size).Safe) ↔
      PathFits cwd opath ∧ Fits size .empty true (pathMemory cwd opath) := by
  have hword : Text.empty.text.length + 2 * (pathMemory cwd opath).length < 2 ^ 32 := by
    rw [length_pathMemory]
    decide
  have hstart : ∀ o, PathFits cwd opath → btosPathParseWrites o cwd opath size =
      loopWrites o size (pathMemory cwd opath ++ o.path) (Text.empty.state size 0) := by
    intro o hfits
    simp only [btosPathParseWrites, pathWrites_eq o hnul hcwd hfits]
    rfl
  constructor
  · intro hsafe
    have hpath : PathFits cwd opath := by
      by_contra hno
      have hwrote := hsafe ⟨fun _ => nul, ['a']⟩
      have hfull := @pathWrites_full ⟨fun _ => nul, ['a']⟩ cwd opath hnul hcwd hno 'a' (by decide) rfl
      simp only [btosPathParseWrites, hfull] at hwrote
      exact hwrote
    refine ⟨hpath, ?_⟩
    by_contra hno
    obtain ⟨o, ho⟩ := @unsafe_of_not_fits size _ _ 0 Text.good_empty hsize hword hno
    exact ho (hstart o hpath ▸ hsafe o)
  · rintro ⟨hpath, hfits⟩ o
    rw [hstart o hpath]
    rcases @loopWrites_of_fits size o o.path _ _ 0 Text.good_empty hsize hword hfits with
      ⟨-, b, hb⟩ | ⟨t, -, hgood, htrim, ht⟩
    · rw [hb]
      exact nofun
    · rw [ht, Outcome.Safe, pad, mem_append, mem_replicate]
      exact fun _ => .inr ⟨by omega, rfl⟩

/-- A path with `.` and `..`, in a buffer that is just large enough for what it goes through. -/
theorem pathParse_safe_iff_dots : (∀ o, (btosPathParseWrites o "hdd:/a".toList "b/./../c".toList 12).Safe) ∧
    btosPathParse "hdd:/a".toList "b/./../c".toList [] 12 = some (true, "hdd:/a/c".toList ++ List.replicate 4 nul) := by
  have hfits : Fits 12 .empty true (pathMemory "hdd:/a".toList "b/./../c".toList) := by decide +kernel
  have hlen : "hdd:/a".toList.length + 1 < btMaxPath := by decide +kernel
  have hnul : nul ∉ "hdd:/a".toList := by decide +kernel
  refine ⟨?_, by decide +kernel⟩
  rw [pathParse_safe_iff "hdd:/a".toList "b/./../c".toList 12 hnul (Nat.lt_of_succ_lt hlen) (by decide)]
  exact ⟨.inr (.inr hlen), hfits⟩

/-- **Writes outside of the arrays, and a buffer without an end.**  The slash of a drive is written behind a buffer of two
characters; a buffer of three is filled and not ended; a segment of 257 characters does not fit in its array; and `..`
comes before the drive. -/
theorem pathParse_unsafe : ∃ o : Outside, btosPathParseWrites o "hdd:/".toList "a:b".toList 2 = .wrote ∧
    btosPathParseWrites o "hdd:/".toList "a:b".toList 3 = .returned true "a:/".toList ∧
    ¬ (btosPathParseWrites o "hdd:/".toList "a:b".toList 3).Safe ∧
    btosPathParseWrites o "hdd:/".toList ("a:".toList ++ List.replicate 257 'x') 300 = .wrote ∧
    btosPathParseWrites o "hdd:/".toList "..\na:b".toList 300 = .wrote := by
  have hfull : btosPathParseWrites ⟨fun _ => nul, []⟩ "hdd:/".toList "a:b".toList 3 = .returned true "a:/".toList := by
    decide +kernel
  refine ⟨⟨fun _ => nul, []⟩, by decide +kernel, hfull, ?_, by decide +kernel, by decide +kernel⟩
  exact fun h => absurd (h rfl) (by decide +kernel)

end Btos.User.Newlib
