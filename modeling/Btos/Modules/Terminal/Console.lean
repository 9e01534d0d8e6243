import Mathlib.Algebra.Order.Ring.Int
import Btos.Lib.Word
import Btos.Util.Map

/-!
# The console

`modules/terminal/console_backend.cpp`: the thread that makes events of the packets of the mouse, and the closing of
a terminal, which takes its global shortcuts away.

* `pointerThread` — **one packet**, `Answered` — **every packet of a run has the events of the buttons that changed**;
* `answered_iff` — it has them **exactly if no packet changes two buttons**: the button is looked up by the
  difference of two masks;
* `close` — **the loop**, which erases one shortcut and starts again;
* `close_right_iff` — it ends **exactly if there is nothing to erase**: the flag is never reset.
-/

namespace Btos.Modules.Terminal

open List Util
open Lib.Word (sub64)

/-! ### The pointer -/

def abs32 (i : ℤ) : ℕ := if 0 < i then i.toNat else (-i).toNat

def msb32 (x : ℕ) : ℕ :=
  let (r, x) := if x &&& 0xFFFF0000 ≠ 0 then (16, x >>> 16) else (0, x)
  let (r, x) := if x &&& 0xFF00 ≠ 0 then (r + 8, x >>> 8) else (r, x)
  let (r, x) := if x &&& 0xF0 ≠ 0 then (r + 4, x >>> 4) else (r, x)
  r + [0, 1, 2, 2, 3, 3, 3, 3, 4, 4, 4, 4, 4, 4, 4, 4].getD x 0

/-- `bt_mouse_packet`. -/
structure Packet where
  flags : ℕ
  xMotion : ℤ
  yMotion : ℤ

/-- A packet, and what `rtc_millis` returns while it is handled. -/
structure Input where
  packet : Packet
  tested : ℕ
  moved : ℕ
  pressed : ℕ

inductive EventType where
  | move
  | buttonDown
  | buttonUp
  deriving DecidableEq, Repr

/-- `bt_terminal_pointer_event`. -/
structure Event where
  type : EventType
  x : ℕ
  y : ℕ
  button : ℕ
  deriving DecidableEq, Repr

/-- The fields of the backend that the thread reads. -/
structure Screen where
  width : ℕ
  height : ℕ
  pointerSpeed : ℕ
  one_lt_width : 1 < width
  one_lt_height : 1 < height

/-- `pointer_info`, and the local variable of the thread. -/
structure Pointer where
  x : ℕ
  y : ℕ
  flags : ℕ
  lastMoveTime : ℕ

/-- The motion that an `int16_t` holds after it was multiplied. -/
def accelerated (motion : ℤ) : ℤ := (motion * msb32 (abs32 motion)).bmod (2 ^ 16)

def position (speed old : ℕ) (motion : ℤ) : ℕ :=
  let new := ((old + motion * speed) % 2 ^ 32).toNat
  if 0 < motion && new < old then 2 ^ 32 - 1 else if motion < 0 && old < new then 0 else new

def buttonEvent (oldflags flags : ℕ) : EventType × ℕ :=
  let (type, diff) := if oldflags < flags then (.buttonDown, flags - oldflags) else (.buttonUp, oldflags - flags)
  (type, if diff = 1 then 1 else if diff = 2 then 2 else if diff = 4 then 3 else 0)

/-- **`console_backend_pointer_thread`**: one packet, with a terminal that is active. -/
def pointerThread (scr : Screen) (p : Pointer) (i : Input) : Pointer × List Event :=
  let newx := position scr.pointerSpeed p.x (accelerated i.packet.xMotion)
  let newy := position scr.pointerSpeed p.y (accelerated ((-i.packet.yMotion).bmod (2 ^ 16)))
  let xscale := (2 ^ 32 - 1) / (scr.width - 1)
  let yscale := (2 ^ 32 - 1) / (scr.height - 1)
  let (x, y) := (newx / xscale, newy / yscale)
  let move := (x ≠ p.x / xscale || y ≠ p.y / yscale) && 15 < sub64 i.tested p.lastMoveTime
  let (type, button) := buttonEvent p.flags i.packet.flags
  let changed : Bool := i.packet.flags ≠ p.flags
  (⟨newx, newy, i.packet.flags, if changed then i.pressed else if move then i.moved else p.lastMoveTime⟩,
    (if move then [⟨.move, x, y, 0⟩] else []) ++ if changed && button ≠ 0 then [⟨type, x, y, button⟩] else [])

/-! ### The buttons -/

def buttons : List ℕ := [1, 2, 3]

def held (flags button : ℕ) : Bool := flags.testBit (button - 1)

def count (type : EventType) (button : ℕ) (events : List Event) : ℕ :=
  events.countP fun e => e.type = type ∧ e.button = button

/-- One event for each button that was pressed or released, and no other. -/
def Exact (old new : ℕ) (events : List Event) : Prop :=
  ∀ b ∈ buttons, count .buttonDown b events = (if !held old b && held new b then 1 else 0) ∧
    count .buttonUp b events = if held old b && !held new b then 1 else 0

def Balanced (flags : ℕ) (events : List Event) : Prop :=
  ∀ b ∈ buttons, count .buttonDown b events = count .buttonUp b events + (held flags b).toNat

/-- **Each packet is answered**, after the events that were queued before. -/
def Answered (scr : Screen) : Pointer → List Event → List Input → Prop
  | _, _, [] => True
  | p, before, i :: is =>
      let (p', events) := pointerThread scr p i
      Exact p.flags i.packet.flags events ∧ Balanced i.packet.flags (before ++ events) ∧
        Answered scr p' (before ++ events) is

/-- No two buttons change. -/
def OneButton (old new : ℕ) : Prop :=
  ∀ b ∈ buttons, ∀ c ∈ buttons, held old b ≠ held new b → held old c ≠ held new c → b = c

instance (old new : ℕ) : Decidable (OneButton old new) :=
  inferInstanceAs (Decidable (∀ b ∈ buttons, ∀ c ∈ buttons, _ → _ → _))

theorem count_pointerThread (scr : Screen) (p : Pointer) (i : Input) (type : EventType) (hb : b ≠ 0) :
    count type b (pointerThread scr p i).2 =
      if i.packet.flags ≠ p.flags ∧ buttonEvent p.flags i.packet.flags = (type, b) then 1 else 0 := by
  unfold pointerThread count
  simp only [countP_append]
  split <;> split <;> grind

/-- The differences of two masks of three bits. -/
theorem buttonEvent_iff : ∀ old < 8, ∀ new < 8, (∀ b ∈ buttons,
    ((if new ≠ old ∧ buttonEvent old new = (.buttonDown, b) then 1 else 0) =
      if !held old b && held new b then 1 else 0) ∧
    (if new ≠ old ∧ buttonEvent old new = (.buttonUp, b) then 1 else 0) =
      if held old b && !held new b then 1 else 0) ↔ OneButton old new := by
  decide

theorem exact_iff (scr : Screen) (p : Pointer) (i : Input) (hp : p.flags < 8) (hi : i.packet.flags < 8) :
    Exact p.flags i.packet.flags (pointerThread scr p i).2 ↔ OneButton p.flags i.packet.flags := by
  rw [← buttonEvent_iff _ hp _ hi]
  refine forall₂_congr fun b hb => ?_
  have hpos : b ≠ 0 := by
    rintro rfl
    exact absurd hb (by decide)
  rw [count_pointerThread scr p i _ hpos, count_pointerThread scr p i _ hpos]

theorem balanced_nil : Balanced 0 [] := by simp [Balanced, count, held]

theorem Balanced.exact (h : Balanced old before) (he : Exact old new events) : Balanced new (before ++ events) := by
  intro b hb
  obtain ⟨hdown, hup⟩ := he b hb
  have happend : ∀ type, count type b (before ++ events) = count type b before + count type b events :=
    fun _ => countP_append
  rw [happend, happend, hdown, hup, h b hb]
  cases held old b <;> cases held new b <;> simp

theorem answered_of (scr : Screen) (p : Pointer) (before : List Event) (is : List Input) (hp : p.flags < 8)
    (his : ∀ i ∈ is, i.packet.flags < 8) (h : Balanced p.flags before) :
    Answered scr p before is ↔ IsChain OneButton (p.flags :: is.map fun i => i.packet.flags) := by
  induction is generalizing p before with
  | nil => simp [Answered]
  | cons i is ih =>
    have hi := his i mem_cons_self
    have hrest : ∀ k ∈ is, k.packet.flags < 8 := fun k hk => his k (mem_cons_of_mem i hk)
    simp only [Answered, map_cons, isChain_cons_cons]
    rw [exact_iff scr p i hp hi]
    refine and_congr_right fun hone => ?_
    have hbal := h.exact ((exact_iff scr p i hp hi).2 hone)
    rw [ih (pointerThread scr p i).1 _ hi hrest hbal]
    exact and_iff_right hbal

/-- The pointer as the constructor of the backend leaves it. -/
def Pointer.start : Pointer := ⟨0, 0, 0, 0⟩

/-- **When the events are those of the buttons.** -/
theorem answered_iff (scr : Screen) (is : List Input) (his : ∀ i ∈ is, i.packet.flags < 8) :
    Answered scr .start [] is ↔ IsChain OneButton (0 :: is.map fun i => i.packet.flags) :=
  answered_of scr .start [] is (by decide) his balanced_nil

def vga : Screen := ⟨640, 480, 300000, by decide, by decide⟩

/-- The first button is pressed and let go. -/
theorem answered_click : Answered vga .start [] [⟨⟨1, 0, 0⟩, 20, 20, 20⟩, ⟨⟨0, 3, -2⟩, 40, 40, 40⟩] :=
  (answered_iff vga _ (by decide)).2 (by decide)

/-- **The wrong button.**  The first button is let go while the second is pressed: the event is that the first button
was pressed, again. -/
theorem pointerThread_swapped : (pointerThread vga ⟨0, 0, 1, 0⟩ ⟨⟨2, 0, 0⟩, 20, 20, 20⟩).2 = [⟨.buttonDown, 0, 0, 1⟩] ∧
    ¬ Answered vga .start [] [⟨⟨1, 0, 0⟩, 10, 10, 10⟩, ⟨⟨2, 0, 0⟩, 20, 20, 20⟩] := by
  refine ⟨by decide +kernel, ?_⟩
  rw [answered_of vga _ _ _ (by decide) (by decide) balanced_nil]
  decide

/-! ### Closing a terminal -/

/-- A `vterm`, and if its backend is this one. -/
structure Vterm where
  id : ℕ
  here : Bool

/-- The backend, and the list of terminals. -/
structure Backend where
  active : ℕ
  globalShortcuts : Map ℕ ℕ
  terminals : List Vterm
  lastId : ℕ

def Backend.registerGlobalShortcut (b : Backend) (keycode termid : ℕ) : Backend :=
  { b with globalShortcuts := b.globalShortcuts.set keycode termid }

/-- Another terminal is activated, which is created if there is none. -/
def Backend.activateOther (b : Backend) : Backend :=
  match b.terminals with
  | [] => { b with active := b.lastId + 1, terminals := [⟨b.lastId + 1, true⟩], lastId := b.lastId + 1 }
  | t :: _ => if t.here then { b with active := t.id } else b

/-- A pass of the loop, which ends after the first shortcut that is erased. -/
def closePass (id : ℕ) (m : Map ℕ ℕ) (found : Bool) : Map ℕ ℕ × Bool :=
  if m.items.any fun e => e.2 = id then
    (⟨m.items.eraseP fun e => e.2 = id, m.nodup.sublist (eraseP_sublist.map _)⟩, true)
  else (m, found)

/-- The loop, for at most the given number of passes. -/
def closeLoop (id : ℕ) : ℕ → Map ℕ ℕ → Bool → Option (Map ℕ ℕ)
  | 0, _, _ => none
  | fuel + 1, m, found =>
      let (m', found') := closePass id m found
      if found' then closeLoop id fuel m' found' else some m'

/-- **`close`**. -/
def Backend.close (b : Backend) (id fuel : ℕ) : Option Backend :=
  let b := if b.active = id then b.activateOther else b
  (closeLoop id fuel b.globalShortcuts false).map fun m => { b with globalShortcuts := m }

theorem globalShortcuts_activateOther (b : Backend) : b.activateOther.globalShortcuts = b.globalShortcuts := by
  unfold Backend.activateOther
  split
  · rfl
  · split <;> rfl

theorem closeLoop_found (id fuel : ℕ) (m : Map ℕ ℕ) : closeLoop id fuel m true = none := by
  induction fuel generalizing m with
  | zero => rfl
  | succ fuel ih =>
    have hfound : (closePass id m true).2 = true := by
      unfold closePass
      split <;> rfl
    simp [closeLoop, hfound, ih]

/-- **When it ends**, and then with the other shortcuts. -/
theorem close_right_iff (b : Backend) (id : ℕ) : (∃ fuel b', b.close id fuel = some b' ∧
      b'.globalShortcuts.items = b.globalShortcuts.items.filter fun e => e.2 ≠ id) ↔
      ∀ e ∈ b.globalShortcuts.items, e.2 ≠ id := by
  have hsame : (if b.active = id then b.activateOther else b).globalShortcuts = b.globalShortcuts := by
    split
    · exact globalShortcuts_activateOther b
    · rfl
  constructor
  · rintro ⟨fuel, b', hclose, -⟩ e he heq
    have hany : (b.globalShortcuts.items.any fun e => e.2 = id) = true :=
      any_eq_true.2 ⟨e, he, decide_eq_true heq⟩
    simp only [Backend.close, hsame] at hclose
    cases fuel with
    | zero => simp [closeLoop] at hclose
    | succ fuel => simp [closeLoop, closePass, hany, closeLoop_found] at hclose
  · intro h
    have hany : (b.globalShortcuts.items.any fun e => e.2 = id) = false := by simpa using h
    refine ⟨1, { (if b.active = id then b.activateOther else b) with
      globalShortcuts := b.globalShortcuts }, ?_, (filter_eq_self.2 (by simpa using h)).symm⟩
    simp [Backend.close, closeLoop, closePass, hsame, hany]

def oneShortcut : Backend := (⟨1, .empty, [⟨1, true⟩], 1⟩ : Backend).registerGlobalShortcut 0x43 2

/-- **It does not end** for a terminal with one shortcut. -/
theorem close_one : oneShortcut.globalShortcuts.items = [(0x43, 2)] ∧ ∀ fuel, oneShortcut.close 2 fuel = none := by
  refine ⟨rfl, fun fuel => ?_⟩
  cases fuel with
  | zero => rfl
  | succ fuel =>
    change (closeLoop 2 fuel _ true).map _ = none
    rw [closeLoop_found, Option.map_none]

end Btos.Modules.Terminal
