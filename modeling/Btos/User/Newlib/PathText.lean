import Btos.User.Newlib.PathParse
import Mathlib.Data.List.Basic

/-!
# The text that `btos_path_parse` keeps

Of the characters that have been read, the function keeps a text: a part that `..` does not go back over, the segments
behind it, and the characters of the current one.

* `Text`, `Text.next` — **the text, and what a character does to it**, without a buffer;
* `dotDotWrites_up` — **`..` in the buffer is `Text.up`**, if something stands before it;
* `parseStepWrites_plain`, `parseStepWrites_colon`, `parseStepWrites_separator` — **a step of the loop is a step of the
  text**, as long as there is room for it.
-/

namespace Btos.User.Newlib

open User.Cmd List Option
open Lib.Buffer

/-- The drive or what stands for it, the segments behind it, and the current one. -/
structure Text where
  base : List Char
  segs : List (List Char)
  cur : List Char
  drive : Bool
  deriving DecidableEq, Repr

def IsSeparator (c : Char) : Prop := c = '/' ∨ c = '\n' ∨ c = nul

instance (c : Char) : Decidable (IsSeparator c) := inferInstanceAs (Decidable (_ ∨ _ ∨ _))

namespace Text

def empty : Text := ⟨[], [], [], false⟩

def kept (t : Text) : List Char := t.base ++ t.segs.flatMap fun s => s ++ ['/']

def text (t : Text) : List Char := t.kept ++ t.cur

/-- **`..`**: the last segment goes.  Without a drive, a slash takes the place of the first one, unless that has only one
character: then it stays. -/
def up (t : Text) : Text :=
  match t.base, t.segs with
  | [], [s] => if s.length = 1 then { t with cur := [] } else { t with base := ['/'], segs := [], cur := [] }
  | _, _ => { t with segs := t.segs.dropLast, cur := [] }

/-- **One character.**  A new line ends `.` and `..`, and is nothing for another segment. -/
def next (t : Text) (c : Char) : Text :=
  if c = ':' then ⟨t.text ++ [':', '/'], [], [], true⟩
  else if IsSeparator c then
    if t.cur = ['.', '.'] then t.up
    else if t.cur = ['.'] then { t with cur := [] }
    else if t.cur ≠ [] ∧ c = '/' then { t with segs := t.segs ++ [t.cur], cur := [] }
    else t
  else { t with cur := t.cur ++ [c] }

def state (size ipos : ℕ) (t : Text) : PState where
  buffer := pad nul size t.text
  bpos := t.text.length
  ipos := ipos
  cstart := t.kept.length
  hasDrive := t.drive

structure Good (t : Text) : Prop where
  segs : ∀ s ∈ t.segs, s ≠ [] ∧ Plain s ∧ nul ∉ s
  cur : Plain t.cur ∧ nul ∉ t.cur
  base : (t.drive = true ∧ nul ∉ t.base ∧ ∃ d, t.base = d ++ [':', '/']) ∨
    (t.drive = false ∧ (t.base = [] ∨ t.base = ['/']))

theorem good_empty : empty.Good :=
  ⟨nofun, ⟨⟨not_mem_nil, not_mem_nil⟩, not_mem_nil⟩, .inr ⟨rfl, .inl rfl⟩⟩

section

variable {t : Text}

theorem length_text (t : Text) : t.text.length = t.kept.length + t.cur.length := length_append

theorem Good.nul_base (h : t.Good) : nul ∉ t.base := by
  rcases h.base with ⟨-, hnul, -⟩ | ⟨-, hbase | hbase⟩
  · exact hnul
  · rw [hbase]
    exact not_mem_nil
  · rw [hbase]
    decide

theorem Good.nul_text (h : t.Good) : nul ∉ t.text := by
  rw [text, kept, append_assoc, mem_append, mem_append, mem_flatMap]
  rintro (hbase | ⟨s, hs, hmem⟩ | hcur)
  · exact h.nul_base hbase
  · rw [mem_append] at hmem
    rcases hmem with hmem | hmem
    · exact (h.segs s hs).2.2 hmem
    · exact absurd hmem (by decide)
  · exact h.cur.2 hcur

theorem Good.of_segs (h : t.Good) {segs : List (List Char)} {cur : List Char}
    (hsegs : ∀ s ∈ segs, s ≠ [] ∧ Plain s ∧ nul ∉ s) (hcur : Plain cur ∧ nul ∉ cur) :
    Good { t with segs := segs, cur := cur } :=
  ⟨hsegs, hcur, h.base⟩

theorem plain_nil : Plain [] ∧ nul ∉ ([] : List Char) := ⟨⟨not_mem_nil, not_mem_nil⟩, not_mem_nil⟩

theorem exists_concat (hplain : Plain l) (hne : l ≠ []) : ∃ p x, l = p ++ [x] ∧ x ≠ '/' ∧ x ≠ ':' := by
  obtain ⟨p, x, rfl⟩ := (eq_nil_or_concat' l).resolve_left hne
  refine ⟨p, x, rfl, ?_, ?_⟩ <;> rintro rfl
  · exact hplain.1 (by simp)
  · exact hplain.2 (by simp)

theorem Good.up (h : t.Good) : t.up.Good := by
  rw [Text.up]
  split
  · rename_i s hbase hsegs
    split
    · exact h.of_segs h.segs plain_nil
    · refine ⟨by simp, plain_nil, ?_⟩
      rcases h.base with ⟨-, -, d, hd⟩ | ⟨hdrive, -⟩
      · rw [hbase] at hd
        exact absurd hd.symm (by simp)
      · exact .inr ⟨hdrive, .inr rfl⟩
  · exact h.of_segs (fun s hs => h.segs s ((dropLast_sublist _).subset hs)) plain_nil

/-- **A character leaves it so.** -/
theorem Good.next (h : t.Good) (c : Char) : (t.next c).Good := by
  rw [Text.next]
  by_cases hcolon : c = ':'
  · rw [if_pos hcolon]
    refine ⟨by simp, plain_nil, .inl ⟨rfl, ?_, t.text, rfl⟩⟩
    rw [mem_append, not_or]
    exact ⟨h.nul_text, by decide⟩
  · rw [if_neg hcolon]
    by_cases hsep : IsSeparator c
    · rw [if_pos hsep]
      split
      · exact h.up
      · split
        · exact h.of_segs h.segs plain_nil
        · split
          · rename_i hother
            refine h.of_segs (fun s hs => ?_) plain_nil
            rcases mem_append.mp hs with hs | hs
            · exact h.segs s hs
            · rw [mem_singleton] at hs
              exact hs ▸ ⟨hother.1, h.cur⟩
          · exact h
    · rw [if_neg hsep]
      simp only [IsSeparator, not_or] at hsep
      refine h.of_segs h.segs ⟨⟨?_, ?_⟩, ?_⟩
      · simp [h.cur.1.1, Ne.symm hsep.1]
      · simp [h.cur.1.2, Ne.symm hcolon]
      · simp [h.cur.2, Ne.symm hsep.2.2]

variable {c : Char}

theorem base_next (hcolon : c ≠ ':') (hbase : t.base ≠ []) :
    (t.next c).base = t.base ∧ (t.next c).drive = t.drive := by
  have hup : t.up.base = t.base ∧ t.up.drive = t.drive := by
    rw [Text.up]
    split
    · rename_i hnil _
      exact absurd hnil hbase
    · exact ⟨rfl, rfl⟩
  rw [Text.next, if_neg hcolon]
  split
  · split
    · exact hup
    · split
      · exact ⟨rfl, rfl⟩
      · split <;> exact ⟨rfl, rfl⟩
  · exact ⟨rfl, rfl⟩

theorem Good.kept_eq (h : t.Good) : t.kept = [] ∨ ∃ p, t.kept = p ++ ['/'] := by
  rw [kept]
  rcases eq_nil_or_concat' t.segs with hsegs | ⟨front, last, hsegs⟩
  · rw [hsegs, flatMap_nil, append_nil]
    rcases h.base with ⟨-, -, d, hd⟩ | ⟨-, hbase | hbase⟩
    · exact .inr ⟨d ++ [':'], by rw [hd, append_assoc]; rfl⟩
    · exact .inl hbase
    · exact .inr ⟨[], hbase⟩
  · refine .inr ⟨t.base ++ (front.flatMap fun s => s ++ ['/']) ++ last, ?_⟩
    rw [hsegs]
    simp

end

end Text

/-! ### `..` in the buffer -/

section

variable {size ipos : ℕ} {drive : Bool} {o : Outside}

/-- The state with nothing behind the last slash. -/
def keptState (size ipos : ℕ) (drive : Bool) (k : List Char) : PState := ⟨pad nul size k, k.length, ipos, k.length, drive⟩

def walkBack (size ipos : ℕ) (drive : Bool) (k : List Char) : Option PState :=
  (write (pad nul size k) (k.length - 1) nul).bind fun b =>
    (eraseBack nul '/' (k.length - 1) b).bind fun r =>
      (write r.1 r.2 '/').map fun b => ⟨b, r.2 + 1, ipos, r.2 + 1, drive⟩

theorem dotDotWrites_eq (hsize : k.length + 2 < size) :
    dotDotWrites o ⟨pad nul size (k ++ ['.', '.']), k.length + 2, ipos, k.length, drive⟩ =
      if twoBefore k.length = 0 ∨
          (pad nul size k)[twoBefore k.length]?.getD (o.buffer (twoBefore k.length)) = ':' then
        some (keptState size ipos drive k)
      else if k.length = 0 then none else walkBack size ipos drive k := by
  have hlen : (k ++ ['.']).length = k.length + 1 := by
    rw [length_append, length_singleton]
  have h1 : write (pad nul size (k ++ ['.', '.'])) (k.length + 2 - 1) nul = some (pad nul size (k ++ ['.'])) := by
    rw [show k ++ ['.', '.'] = (k ++ ['.']) ++ ['.'] by simp, show k.length + 2 - 1 = (k ++ ['.']).length by omega]
    exact write_pad_pop (by omega)
  have h2 : write (pad nul size (k ++ ['.'])) (k.length + 2 - 2) nul = some (pad nul size k) :=
    write_pad_pop (by omega)
  rw [dotDotWrites, h1, bind_some, h2, bind_some]
  rfl

theorem read_twoBefore (hk : k = q ++ [y, z]) (hword : k.length < 2 ^ 32) : twoBefore k.length = q.length ∧
      (pad nul size k)[twoBefore k.length]?.getD (o.buffer (twoBefore k.length)) = y := by
  have hlen : k.length = q.length + 2 := by
    rw [hk, length_append]
    rfl
  have htwo : twoBefore k.length = q.length := by
    rw [twoBefore]
    omega
  refine ⟨htwo, ?_⟩
  rw [htwo, getElem?_pad_of_lt (by omega), hk]
  simp

/-- **Back to the slash before the segment.** -/
theorem walkBack_slash (hp : p ≠ []) (hlast : '/' ∉ last) (hsize : p.length + last.length + 2 < size) :
    walkBack size ipos drive (p ++ '/' :: last ++ ['/']) = some (keptState size ipos drive (p ++ ['/'])) := by
  have hlen : (p ++ '/' :: last).length = p.length + last.length + 1 := by
    rw [length_append, length_cons, Nat.add_assoc]
  have hall : (p ++ '/' :: last ++ ['/']).length - 1 = (p ++ '/' :: last).length := by
    rw [length_append, length_singleton, Nat.add_sub_cancel]
  have hend : (p ++ ['/']).length = p.length + 1 := by
    rw [length_append, length_singleton]
  rw [walkBack, hall, write_pad_pop (by omega), bind_some, hlen,
    eraseBack_pad p last hlast hp (by decide) (by omega), bind_some]
  simp only [write_pad_same (show p.length < size by omega), map_some, keptState, hend]

/-- **Back to the start of the buffer.** -/
theorem walkBack_start (hu : '/' ∉ u) (hsize : u.length + 2 < size) :
    walkBack size ipos drive (x :: u ++ ['/']) = some (keptState size ipos drive ['/']) := by
  have hall : (x :: u ++ ['/']).length - 1 = (x :: u).length := by
    rw [length_append, length_singleton, Nat.add_sub_cancel]
  have hlen : (x :: u).length = u.length + 1 := rfl
  rw [walkBack, hall, write_pad_pop (by omega), bind_some, hlen,
    eraseBack_pad_start x u hu (by decide) (by omega), bind_some]
  simp only [write_pad_first (show 0 < size by omega), map_some, keptState, length_singleton]

theorem walkBack_root (hsize : 0 < size) :
    walkBack size ipos drive ['/'] = some (keptState size ipos drive ['/']) := by
  have hpop : write (pad nul size ['/']) 0 nul = some (pad nul size []) := @write_pad_pop _ nul size [] '/' hsize
  have hpush : write (pad nul size []) 0 '/' = some (pad nul size ['/']) := @write_pad_push _ nul size [] hsize '/'
  rw [walkBack, length_singleton, hpop, bind_some, eraseBack, bind_some]
  simp only [hpush, map_some, keptState, length_singleton]

end

/-! ### One character in the buffer -/

section

variable {size ipos : ℕ} {o : Outside} {t : Text}

theorem kept_snoc (hsegs : t.segs = front ++ [last]) :
    t.kept = { t with segs := front }.kept ++ last ++ ['/'] := by
  rw [Text.kept, Text.kept, hsegs]
  simp

theorem up_state (hkept : t.up.kept = k) : t.up.state size ipos = keptState size ipos t.drive k := by
  obtain ⟨hcur, hdrive⟩ : t.up.cur = [] ∧ t.up.drive = t.drive := by
    rw [Text.up]
    split
    · split <;> exact ⟨rfl, rfl⟩
    · exact ⟨rfl, rfl⟩
  rw [Text.state, Text.text, hkept, hcur, hdrive, append_nil]
  rfl

/-- `..` behind the first segment of a text without a drive. -/
theorem walkBack_first (hbase : t.base = []) (hsegs : t.segs = [s]) (hs : s ≠ []) (hslash : '/' ∉ s)
    (hone : s.length ≠ 1) (hsize : t.kept.length + 2 < size) :
    walkBack size ipos t.drive t.kept = some (t.up.state size ipos) := by
  obtain ⟨x, u, rfl⟩ := exists_cons_of_ne_nil hs
  have hkept : t.kept = x :: u ++ ['/'] := by simp [Text.kept, hbase, hsegs]
  have hup : t.up.kept = ['/'] := by
    rw [Text.up, hbase, hsegs]
    simp only [if_neg hone]
    rfl
  rw [hkept, length_append, length_cons] at hsize
  rw [up_state hup, hkept, walkBack_start (fun h => hslash (mem_cons_of_mem _ h)) (by omega)]

/-- `..` behind a segment with a slash before it. -/
theorem walkBack_last (hsegs : t.segs = front ++ [last])
    (hslash : '/' ∉ last) (hp : { t with segs := front }.kept = p ++ ['/']) (hsize : t.kept.length + 2 < size) :
    walkBack size ipos t.drive t.kept = some (t.up.state size ipos) := by
  have hkept : t.kept = p ++ '/' :: last ++ ['/'] := by
    rw [kept_snoc hsegs, hp]
    simp
  have hup : t.up.kept = p ++ ['/'] := by
    rw [← hp, Text.up, hsegs]
    split
    · rename_i s hbase hone
      have hfront : front = [] := by
        have hlen := congrArg List.length hone
        rw [length_append] at hlen
        exact eq_nil_of_length_eq_zero (Nat.succ.inj hlen)
      rw [hfront, Text.kept, hbase] at hp
      exact absurd hp.symm (by simp)
    · rw [dropLast_concat]
      rfl
  rw [hkept, length_append, length_append, length_cons] at hsize
  rw [up_state hup, hkept]
  by_cases hpnil : p = []
  · subst hpnil
    exact walkBack_start hslash (by omega)
  · exact walkBack_slash hpnil hslash (by omega)

theorem dots_state (hcur : t.cur = ['.', '.']) : t.text.length = t.kept.length + 2 ∧
    t.state size ipos = ⟨pad nul size (t.kept ++ ['.', '.']), t.kept.length + 2, ipos, t.kept.length, t.drive⟩ := by
  have hlen : t.text.length = t.kept.length + 2 := by rw [t.length_text, hcur]; rfl
  exact ⟨hlen, by rw [Text.state, hlen, Text.text, hcur]⟩

/-- **`..` takes the last segment**, if there is something before it. -/
theorem dotDotWrites_up (hgood : t.Good) (hcur : t.cur = ['.', '.']) (hkept : t.kept ≠ [])
    (hsize : t.text.length < size) (hword : t.text.length < 2 ^ 32) :
    dotDotWrites o (t.state size ipos) = some (t.up.state size ipos) := by
  obtain ⟨hlen, hstate⟩ := @dots_state size ipos t hcur
  have hpos : t.kept.length ≠ 0 := fun h => hkept (eq_nil_of_length_eq_zero h)
  rw [hlen] at hsize
  rw [hstate, dotDotWrites_eq hsize]
  rcases eq_nil_or_concat' t.segs with hsegs | ⟨front, last, hsegs⟩
  · -- nothing is behind the part that stays
    have hbase : t.kept = t.base := by rw [Text.kept, hsegs, flatMap_nil, append_nil]
    have hup : t.up.kept = t.kept := by
      rw [Text.up, hsegs]
      cases hb : t.base with
      | nil => exact absurd (hbase.trans hb) hkept
      | cons x xs => rw [hbase, Text.kept, hb]; simp
    rw [up_state hup]
    rcases hgood.base with ⟨-, -, d, hd⟩ | ⟨-, hb | hb⟩
    · rw [if_pos (.inr (read_twoBefore (hbase.trans hd) (by omega)).2)]
    · exact absurd (hbase.trans hb) hkept
    · split
      · rfl
      · rw [hbase, hb, walkBack_root (by omega)]
  · -- the last character of the segment is read, which is no colon
    obtain ⟨hne, hplain, -⟩ := hgood.segs last (by rw [hsegs]; simp)
    obtain ⟨init, y, hlast, -, hy⟩ := Text.exists_concat hplain hne
    have hread := @read_twoBefore size o t.kept ({ t with segs := front }.kept ++ init) y '/'
      (by rw [kept_snoc hsegs, hlast]; simp) (by omega)
    have hfront : Text.Good { t with segs := front } :=
      hgood.of_segs (fun s hs => hgood.segs s (by rw [hsegs]; exact mem_append_left _ hs)) hgood.cur
    rw [hread.2, hread.1]
    rcases hfront.kept_eq with hnil | ⟨p, hp⟩
    · -- it is the first one
      have hbase : t.base = [] := (append_eq_nil_iff.mp hnil).1
      have hfrontnil : front = [] := by
        cases front with
        | nil => rfl
        | cons s ss => simp [Text.kept] at hnil
      rw [hfrontnil, nil_append] at hsegs
      by_cases hone : last.length = 1
      · have hinit : init = [] := by
          rw [hlast, length_append] at hone
          exact eq_nil_of_length_eq_zero (Nat.succ.inj hone)
        have hup : t.up.kept = t.kept := by
          rw [Text.up, hbase, hsegs]
          simp only [if_pos hone]
          rw [Text.kept, Text.kept, hbase, hsegs]
        rw [hnil, hinit, if_pos (.inl rfl), up_state hup]
      · have hinit : init ≠ [] := by
          rintro rfl
          rw [hlast] at hone
          exact hone rfl
        have hilen := length_pos_iff.mpr hinit
        rw [hnil, nil_append, if_neg (not_or.mpr ⟨by omega, hy⟩), if_neg hpos]
        exact walkBack_first hbase hsegs hne hplain.1 hone hsize
    · have hplen : 0 < ({ t with segs := front }.kept ++ init).length := by
        rw [hp, length_append, length_append, length_singleton]
        omega
      rw [if_neg (not_or.mpr ⟨by omega, hy⟩), if_neg hpos]
      exact walkBack_last hsegs hplain.1 hp hsize

/-- **`..` with nothing before it** goes in front of the buffer, unless there is a colon. -/
theorem dotDotWrites_top (hcur : t.cur = ['.', '.']) (hkept : t.kept = []) (ho : ∀ i, o.buffer i ≠ ':')
    (hsize : t.text.length < size) : dotDotWrites o (t.state size ipos) = none := by
  obtain ⟨hlen, hstate⟩ := @dots_state size ipos t hcur
  rw [hlen] at hsize
  rw [hstate, dotDotWrites_eq hsize, hkept, length_nil, if_neg, if_pos rfl]
  rintro (htwo | hread)
  · exact absurd htwo (by decide)
  · -- the buffer is empty
    rw [pad, nil_append, getElem?_replicate] at hread
    split at hread
    · exact absurd (show nul = ':' from hread) (by decide)
    · exact ho _ hread

theorem IsSeparator.ne_colon (h : IsSeparator c) : c ≠ ':' := by
  rintro rfl
  exact absurd h (by decide)

theorem parseStepWrites_eq (hsep : IsSeparator c) (s : PState) :
    parseStepWrites o c s = separatorWrites o c s := by
  rw [parseStepWrites, if_neg hsep.ne_colon]
  exact if_pos hsep

theorem text_next_plain (hcolon : c ≠ ':') (hsep : ¬ IsSeparator c) : (t.next c).text = t.text ++ [c] := by
  rw [Text.next, if_neg hcolon, if_neg hsep, Text.text, ← append_assoc]
  rfl

theorem length_next_plain (hcolon : c ≠ ':') (hsep : ¬ IsSeparator c) :
    (t.next c).text.length = t.text.length + 1 := by
  rw [text_next_plain hcolon hsep, length_append, length_singleton]

theorem text_next_colon (t : Text) : (t.next ':').text = t.text ++ [':', '/'] := by
  rw [Text.next, if_pos rfl, Text.text, Text.kept, flatMap_nil, append_nil, append_nil]

/-- **A character of a segment.** -/
theorem parseStepWrites_plain (hcolon : c ≠ ':') (hsep : ¬ IsSeparator c) (hsize : t.text.length < size) :
    parseStepWrites o c (t.state size ipos) = some (true, (t.next c).state size ipos) := by
  have hnext : t.next c = { t with cur := t.cur ++ [c] } := by rw [Text.next, if_neg hcolon, if_neg hsep]
  have hplain : parseStepWrites o c (t.state size ipos) = (push (t.state size ipos) c).map fun s => (true, s) := by
    rw [parseStepWrites, if_neg hcolon]
    exact if_neg hsep
  rw [hplain, push, Text.state, write_pad_push hsize, Text.state, text_next_plain hcolon hsep, hnext]
  simp only [map_some, length_append, length_singleton]
  rfl

theorem parseStepWrites_refused (h : ipos = 0 ∨ t.drive = true) :
    parseStepWrites o ':' (t.state size ipos) = some (false, t.state size ipos) := by
  rw [parseStepWrites, if_pos rfl, if_neg]
  simp only [Text.state, Bool.and_eq_true, Bool.not_eq_true', not_and]
  intro hdrive hipos
  rcases h with h | h
  · exact of_decide_eq_true hipos h
  · rw [h] at hdrive
    cases hdrive

/-- **The colon of the drive.** -/
theorem parseStepWrites_colon (hipos : ipos ≠ 0) (hdrive : t.drive = false) (hsize : t.text.length + 1 < size) :
    parseStepWrites o ':' (t.state size ipos) = some (true, (t.next ':').state size ipos) := by
  have hone : write (pad nul size t.text) t.text.length ':' = some (pad nul size (t.text ++ [':'])) :=
    write_pad_push (by omega) ':'
  have htwo : write (pad nul size (t.text ++ [':'])) (t.text.length + 1) '/' =
      some (pad nul size (t.text ++ [':', '/'])) := by
    have hlen : t.text.length + 1 = (t.text ++ [':']).length := by rw [length_append, length_singleton]
    rw [hlen, write_pad_push (by omega), append_assoc]
    rfl
  have hnext : t.next ':' = ⟨t.text ++ [':', '/'], [], [], true⟩ := by rw [Text.next, if_pos rfl]
  rw [parseStepWrites, if_pos rfl, if_pos (by simp [Text.state, hdrive, hipos]), hnext]
  have hstate : Text.state size ipos ⟨t.text ++ [':', '/'], [], [], true⟩ =
      ⟨pad nul size (t.text ++ [':', '/']), t.text.length + 1 + 1, ipos, t.text.length + 1 + 1, true⟩ := by
    have hlen : (t.text ++ [':', '/']).length = t.text.length + 1 + 1 := length_append
    rw [Text.state, Text.text, Text.kept, flatMap_nil, append_nil, append_nil, hlen]
  rw [hstate]
  simp only [push, Text.state, hone, htwo, map_some, bind_some]

theorem parseStepWrites_colon_full (hipos : ipos ≠ 0) (hdrive : t.drive = false) (hsize : t.text.length + 1 = size) :
    parseStepWrites o ':' (t.state size ipos) = none := by
  have hone : write (pad nul size t.text) t.text.length ':' = some (pad nul size (t.text ++ [':'])) :=
    write_pad_push (by omega) ':'
  have htwo : write (pad nul size (t.text ++ [':'])) (t.text.length + 1) '/' = none := by
    rw [write, if_neg]
    rw [length_pad (by rw [length_append, length_singleton]; omega)]
    omega
  rw [parseStepWrites, if_pos rfl, if_pos (by simp [Text.state, hdrive, hipos])]
  simp only [push, Text.state, hone, map_some, bind_some, htwo, map_none]

/-- The current segment, if it has a place in `cstr`. -/
theorem copiedSegment_state (hgood : t.Good) : copiedSegment (t.state size ipos) =
    if t.cur.length ≤ btMaxSegLen then some t.cur else none := by
  have hsub : t.text.length - t.kept.length = t.cur.length := by rw [t.length_text, Nat.add_sub_cancel_left]
  simp only [copiedSegment, Text.state, hsub]
  by_cases hlt : t.kept.length < t.text.length
  · rw [if_pos hlt]
    split
    · rw [Text.text, take_drop_pad, cString_eq_self hgood.cur.2]
    · rfl
  · have hnil : t.cur = [] := eq_nil_of_length_eq_zero (by omega)
    rw [if_neg hlt, hnil, length_nil, if_pos (Nat.zero_le _)]

/-- **A segment that has no place in its array.** -/
theorem parseStepWrites_long (hgood : t.Good) (hsep : IsSeparator c) (hlong : btMaxSegLen < t.cur.length) :
    parseStepWrites o c (t.state size ipos) = none := by
  rw [parseStepWrites_eq hsep, separatorWrites, copiedSegment_state hgood, if_neg (Nat.not_le.mpr hlong),
    bind_none]

/-- **`..` with nothing before it.** -/
theorem parseStepWrites_top (hgood : t.Good) (hsep : IsSeparator c) (hcur : t.cur = ['.', '.'])
    (hkept : t.kept = []) (ho : ∀ i, o.buffer i ≠ ':') (hsize : t.text.length < size) :
    parseStepWrites o c (t.state size ipos) = none := by
  rw [parseStepWrites_eq hsep, separatorWrites, copiedSegment_state hgood, hcur, if_pos (by decide), bind_some,
    if_pos rfl, dotDotWrites_top hcur hkept ho hsize, map_none]

/-- **A separator.** -/
theorem parseStepWrites_separator (hgood : t.Good) (hsep : IsSeparator c) (hlen : t.cur.length ≤ btMaxSegLen)
    (htop : t.cur = ['.', '.'] → t.kept ≠ []) (hsize : t.text.length < size) (hword : t.text.length < 2 ^ 32) :
    parseStepWrites o c (t.state size ipos) = some (true, (t.next c).state size ipos) := by
  rw [parseStepWrites_eq hsep, separatorWrites, copiedSegment_state hgood, if_pos hlen, bind_some, Text.next,
    if_neg hsep.ne_colon, if_pos hsep]
  by_cases hdd : t.cur = ['.', '.']
  · rw [if_pos hdd, if_pos hdd, dotDotWrites_up hgood hdd (htop hdd) hsize hword, map_some]
  · rw [if_neg hdd, if_neg hdd]
    by_cases hd : t.cur = ['.']
    · have htext : t.text = t.kept ++ ['.'] := by rw [Text.text, hd]
      have hbpos : t.text.length - 1 = t.kept.length := by
        rw [htext, length_append, length_singleton, Nat.add_sub_cancel]
      rw [if_pos hd, if_pos hd]
      simp only [Text.state, hbpos]
      rw [htext, write_pad_pop (by omega)]
      simp [Text.text, Text.kept]
    · rw [if_neg hd, if_neg hd]
      have hiff : (t.cur ≠ [] ∧ c ≠ '\n' ∧ c ≠ nul) ↔ (t.cur ≠ [] ∧ c = '/') := by
        refine and_congr_right fun _ => ?_
        constructor
        · rintro ⟨hline, hnul⟩
          exact hsep.resolve_right (not_or.mpr ⟨hline, hnul⟩)
        · rintro rfl
          decide
      by_cases hend : t.cur ≠ [] ∧ c = '/'
      · have hkept : { t with segs := t.segs ++ [t.cur], cur := [] }.kept = t.text ++ ['/'] := by
          rw [Text.text, Text.kept, Text.kept]
          simp
        rw [if_pos (hiff.mpr hend), if_pos hend, push, Text.state, write_pad_push hsize]
        simp only [map_some, Text.state, Text.text, hkept, append_nil, length_append, length_singleton]
      · rw [if_neg (mt hiff.mp hend), if_neg hend]

end

end Btos.User.Newlib
