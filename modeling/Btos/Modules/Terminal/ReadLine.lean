import Mathlib.Data.List.Basic

/-!
# A line from the keyboard

`vterm::read` in terminal mode (`modules/terminal/vterm.cpp`): every character is stored where the next one belongs, and
then the index goes on, back or nowhere.

* `read` — **the loop**; what is echoed is listed, the rest of the screen is left out;
* `edited` — **what a line is**: backspace takes the last character that is kept, a newline ends it;
* `read_eq_edited` — **the function returns that line**, and waits as long as there is none.
-/

namespace Btos.Modules.Terminal

open List

/-- `KB_char`: the character of a key that goes down. -/
def kbChar (value : ℕ) : ℕ :=
  if value >>> 24 ≠ 1 then 0
  else if value &&& 0x8000 = 0 ∧ value &&& 0x80 = 0 then value % 256 else 0

/-- Control-C. -/
def isBreak (value : ℕ) : Bool :=
  value &&& 0x2000 ≠ 0 && value &&& 0x8000 = 0 && (value % 256 = 'c'.toNat || value % 256 = 'C'.toNat)

/-- What `get_input` comes back with. -/
inductive KeyInput where
  | key (value : ℕ)
  | abort

structure Reading where
  i : ℕ
  buf : List ℕ
  echoed : List ℕ

/-- `buf[i] = c`, and what the character does to the index: a backspace takes it back, unless it is at the start. -/
def Reading.store (echo : Bool) (c : ℕ) (r : Reading) : Reading where
  i := if c = 8 then r.i - 1 else r.i + 1
  buf := if c = 8 ∧ r.i ≠ 0 then (r.buf.set r.i c).set (r.i - 1) 0 else r.buf.set r.i c
  echoed := if echo ∧ ¬ (c = 8 ∧ r.i = 0) then r.echoed ++ [c] else r.echoed

inductive ReadResult where
  | waiting
  | terminated
  | returned (size : ℕ) (r : Reading)

def readLoop (size : ℕ) (echo : Bool) : List KeyInput → Reading → ReadResult
  | [], r => if r.i < size then .waiting else .returned size r
  | input :: inputs, r =>
      if r.i < size then
        match input with
        | .abort => .returned 0 r
        | .key value =>
            if isBreak value then .terminated
            -- the inner loop asks for another one
            else if kbChar value = 0 then readLoop size echo inputs r
            else if kbChar value = 10 then .returned (r.i + 1) (r.store echo 10)
            else readLoop size echo inputs (r.store echo (kbChar value))
      else .returned size r

/-- **`read`**, with the inputs that come while it waits. -/
def read (size : ℕ) (echo : Bool) (inputs : List KeyInput) (buf : List ℕ) : ReadResult :=
  readLoop size echo inputs ⟨0, buf, []⟩

/-- The returned length and the bytes in front of it. -/
def ReadResult.line : ReadResult → Option (ℕ × List ℕ)
  | .returned size r => some (size, r.buf.take size)
  | _ => none

/-! ### The line -/

/-- **The line that is edited** behind the characters that are kept; `none` as long as it is not complete. -/
def edited (size : ℕ) (kept : List ℕ) : List ℕ → Option (List ℕ)
  | [] => if kept.length < size then none else some kept
  | c :: cs =>
      if kept.length < size then
        if c = 10 then some (kept ++ [c]) else edited size (if c = 8 then kept.dropLast else kept ++ [c]) cs
      else some kept

/-- **A character** is appended, a backspace takes the last one. -/
theorem store_spec {r : Reading} (echo : Bool) (c : ℕ) (h : r.i < r.buf.length) :
    (r.store echo c).buf.length = r.buf.length ∧ (r.store echo c).buf.take (r.store echo c).i =
      if c = 8 then (r.buf.take r.i).dropLast else r.buf.take r.i ++ [c] := by
  by_cases hc : c = 8
  · by_cases h0 : r.i = 0
    · simp [Reading.store, hc, h0]
    · simp only [Reading.store, hc, h0, ne_eq, not_false_eq_true, and_self, if_true, length_set, true_and]
      rw [take_set_of_le (Nat.le_refl _), take_set_of_le (Nat.sub_le _ _), dropLast_take h]
  · simp only [Reading.store, hc, false_and, if_false, length_set, true_and]
    rw [take_add_one, take_set_of_le (Nat.le_refl _), getElem?_set_self h]
    rfl

theorem readLoop_line {size : ℕ} (values : List ℕ) (hbreak : ∀ v ∈ values, isBreak v = false) :
    ∀ r : Reading, r.i ≤ size → size ≤ r.buf.length → (readLoop size echo (values.map .key) r).line =
      (edited size (r.buf.take r.i) ((values.map kbChar).filter fun c => c ≠ 0)).map fun l => (l.length, l) := by
  -- the characters in front of the index are the ones that are kept
  induction values with
  | nil =>
    intro r hi hbuf
    have hlen : (r.buf.take r.i).length = r.i := length_take_of_le (Nat.le_trans hi hbuf)
    rw [map_nil, map_nil, filter_nil, readLoop, edited, hlen]
    split
    · rfl
    · rw [Option.map_some, hlen, show r.i = size by omega]
      rfl
  | cons v values ih =>
    intro r hi hbuf
    have hlen : (r.buf.take r.i).length = r.i := length_take_of_le (Nat.le_trans hi hbuf)
    have hrest := ih fun w hw => hbreak w (mem_cons_of_mem v hw)
    rw [map_cons, map_cons, readLoop, hbreak v mem_cons_self]
    by_cases hlt : r.i < size
    · obtain ⟨hsame, htake⟩ := @store_spec r echo (kbChar v) (by omega)
      simp only [if_pos hlt, Bool.false_eq_true, if_false]
      by_cases hzero : kbChar v = 0
      · rw [hzero]
        exact hrest r hi hbuf
      · rw [if_neg hzero, filter_cons_of_pos (by simpa using hzero), edited, hlen, if_pos hlt]
        by_cases hline : kbChar v = 10
        · rw [hline] at htake ⊢
          rw [if_pos rfl, if_pos rfl, Option.map_some, length_append, hlen]
          rw [ReadResult.line, show r.i + 1 = (r.store echo 10).i from rfl, htake]
          rfl
        · rw [if_neg hline, if_neg hline, ← htake]
          refine hrest _ ?_ (by omega)
          show (if kbChar v = 8 then r.i - 1 else r.i + 1) ≤ size
          split <;> omega
    · have hfull : r.i = size := by omega
      rw [if_neg hlt]
      cases hcs : (kbChar v :: values.map kbChar).filter fun c => c ≠ 0 with
      | nil | cons c cs => rw [edited, hlen, if_neg hlt, Option.map_some, hlen, hfull]; rfl

/-- **`vterm::read` returns the line that is edited**, its length and its bytes. -/
theorem read_eq_edited (size : ℕ) (echo : Bool) (buf values : List ℕ) (hbuf : size ≤ buf.length)
    (hbreak : ∀ v ∈ values, isBreak v = false) : (read size echo (values.map .key) buf).line =
      (edited size [] ((values.map kbChar).filter fun c => c ≠ 0)).map fun l => (l.length, l) :=
  readLoop_line values hbreak ⟨0, buf, []⟩ (Nat.zero_le _) hbuf

/-- `a`, its release, backspace twice, `b` and a newline. -/
theorem read_eq_edited_backspace :
    (read 4 true ([0x1000061, 0x1008061, 0x1000008, 0x1000008, 0x1000062, 0x100000A].map .key)
      [0, 0, 0, 0]).line = some (2, [0x62, 10]) :=
  read_eq_edited 4 true [0, 0, 0, 0] _ (by decide) (by decide)

end Btos.Modules.Terminal
