import Btos.Lib.Ring

/-!
# The circular buffer

`include/util/circular_buffer.hpp`.  The `int` in `read_item` holds every difference of two indices, since an array has
less than `2 ^ 31` bytes.

* `CircularBuffer.call` — **one call**, with what it returns;
* `queueCall` — **what it is for**: a queue that drops what comes when it is full.
-/

namespace Btos.Util

open Lib.Ring

variable {T : Type*} {N : ℕ}

/-- `circular_buffer<T, N>`: the buffer with its count and its top, and `zero_value`. -/
structure CircularBuffer (T : Type*) (N : ℕ) where
  ring : Queue N T
  zeroValue : T

inductive BufferCall (T : Type*) where
  | addItem (c : T)
  | readItem
  | count
  | full
  | clear

inductive BufferAnswer (T : Type*) where
  | done
  | item (c : T)
  | size (n : ℕ)
  | truth (b : Bool)

namespace CircularBuffer

def addItem (b : CircularBuffer T N) (c : T) : CircularBuffer T N :=
  if h : b.ring.count < N then { b with ring := b.ring.push c h } else b

def readItem (b : CircularBuffer T N) : CircularBuffer T N × T :=
  if b.ring.count ≠ 0 then ({ b with ring := b.ring.pop }, b.ring.front) else (b, b.zeroValue)

def clear (b : CircularBuffer T N) : CircularBuffer T N :=
  { b with ring := .empty b.ring.cell (Nat.zero_lt_of_lt b.ring.top_lt) }

def call (b : CircularBuffer T N) : BufferCall T → CircularBuffer T N × BufferAnswer T
  | .addItem c => (b.addItem c, .done)
  | .readItem => (b.readItem.1, .item b.readItem.2)
  | .count => (b, .size b.ring.count)
  | .full => (b, .truth (decide (b.ring.count ≥ N)))
  | .clear => (b.clear, .done)

end CircularBuffer

/-- A call to a queue of at most `N` items; `zero` is returned when there is none. -/
def queueCall (N : ℕ) (zero : T) (q : List T) : BufferCall T → List T × BufferAnswer T
  | .addItem c => (if q.length < N then q ++ [c] else q, .done)
  | .readItem => (q.tail, .item (q.headD zero))
  | .count => (q, .size q.length)
  | .full => (q, .truth (decide (q.length ≥ N)))
  | .clear => ([], .done)

/-- **A call to the buffer is the call to the queue** that it holds. -/
theorem call_eq (b : CircularBuffer T N) (c : BufferCall T) :
    queueCall N b.zeroValue b.ring.items c = ((b.call c).1.ring.items, (b.call c).2) ∧
      (b.call c).1.zeroValue = b.zeroValue := by
  cases c with
  | addItem c =>
    by_cases h : b.ring.count < N
    · simp [queueCall, CircularBuffer.call, CircularBuffer.addItem, h]
    · simp [queueCall, CircularBuffer.call, CircularBuffer.addItem, h]
  | readItem =>
    by_cases h : b.ring.count = 0
    · have hnil : b.ring.items = [] := List.eq_nil_of_length_eq_zero (by rw [b.ring.length_items, h])
      simp [queueCall, CircularBuffer.call, CircularBuffer.readItem, h, hnil]
    · simp [queueCall, CircularBuffer.call, CircularBuffer.readItem, h, b.ring.items_pop h]
  | count | full => simp [queueCall, CircularBuffer.call]
  | clear => exact ⟨rfl, rfl⟩

/-- What the calls return, one after the other. -/
def answers (f : σ → κ → σ × β) : σ → List κ → List β
  | _, [] => []
  | s, c :: cs => (f s c).2 :: answers f (f s c).1 cs

theorem answers_call (calls : List (BufferCall T)) : ∀ b : CircularBuffer T N,
    answers CircularBuffer.call b calls = answers (queueCall N b.zeroValue) b.ring.items calls := by
  induction calls with
  | nil =>
    intro b
    rfl
  | cons c calls ih =>
    intro b
    obtain ⟨hcall, hzero⟩ := call_eq b c
    rw [answers, answers, hcall, ih, hzero]

/-- **Every run of calls returns what the queue returns**, whatever is in the memory of a new buffer. -/
theorem circularBuffer_fifo (memory : ℕ → T) (zero : T) (hN : 0 < N) (calls : List (BufferCall T)) :
    answers CircularBuffer.call ⟨.empty memory hN, zero⟩ calls = answers (queueCall N zero) [] calls :=
  answers_call calls _

/-- A buffer of one item: the second one is dropped, and the second read finds none. -/
theorem circularBuffer_fifo_one :
    answers CircularBuffer.call ⟨.empty (fun _ => 0) Nat.one_pos, 0⟩
        [.addItem 7, .full, .addItem 8, .readItem, .count, .readItem] =
      [.done, .truth true, .done, .item 7, .size 0, .item 0] :=
  circularBuffer_fifo (fun _ => 0) 0 Nat.one_pos _

end Btos.Util
