import Btos.Lib.Ring
import Btos.Lib.Transition

/-!
# The queue of operations

`include/module/utils/operationqueue.hpp`.  `Add` and `MakeBatch` hold the lock except where they wait, so a run is a
sequence of critical sections; one that finds the queue full, or empty, changes nothing, and its thread comes again.

* `step` — **one critical section**, of a producer or of the worker.

As in a circular buffer, the `int` in `MakeBatch` holds every difference of two indices.
-/

namespace Btos.Modules.OperationQueue

open List Lib.Ring Lib.Transition

variable {Producer Op : Type*} [DecidableEq Producer] {queueSize : ℕ}

structure State (Producer Op : Type*) (queueSize : ℕ) where
  queue : Queue queueSize Op
  /-- The operations that a producer has not added yet, with the one in `Add` first. -/
  todo : Producer → List Op
  /-- The calls of `Add` that are over, in their order. -/
  added : List (Producer × Op)
  batches : List (List Op)

inductive Turn (Producer : Type*) where
  | add (p : Producer)
  | makeBatch

/-- `while(queueCount)`: the batch, and the queue that is left. -/
def drain : ℕ → Queue queueSize Op → List Op × Queue queueSize Op
  | 0, q => ([], q)
  | n + 1, q => (q.front :: (drain n q.pop).1, (drain n q.pop).2)

def step (s : State Producer Op queueSize) : Turn Producer → Option (State Producer Op queueSize)
  | .add p =>
    match s.todo p with
    | [] => none
    | op :: rest =>
      if h : s.queue.count < queueSize then
        some { s with
          queue := s.queue.push op h
          todo := Function.update s.todo p rest
          added := s.added ++ [(p, op)] }
      else some s
  | .makeBatch =>
    if s.queue.count = 0 then some s
    else
      let r := drain s.queue.count s.queue
      some { s with queue := r.2, batches := s.batches ++ [r.1] }

/-- **A batch is the whole queue.** -/
theorem drain_eq : ∀ (n : ℕ) (q : Queue queueSize Op), q.count = n →
    (drain n q).1 = q.items ∧ (drain n q).2.items = [] := by
  intro n
  induction n with
  | zero =>
    intro q h
    have hnil : q.items = [] := eq_nil_of_length_eq_zero (by rw [q.length_items, h])
    exact ⟨hnil.symm, hnil⟩
  | succ n ih =>
    intro q h
    obtain ⟨hbatch, hrest⟩ := ih q.pop (by simp [Queue.pop, h])
    refine ⟨?_, hrest⟩
    rw [drain, hbatch, q.items_pop (by omega)]

/-- Nothing is lost on the way from the producers `plan` to the batches. -/
structure Kept (plan : Producer → List Op) (s : State Producer Op queueSize) : Prop where
  batches : s.batches.flatten ++ s.queue.items = s.added.map Prod.snd
  programs : ∀ p, (s.added.filter (·.1 = p)).map Prod.snd ++ s.todo p = plan p

theorem Kept.next (a : Turn Producer) (h : Kept plan s) (hs : step s a = some t) : Kept plan t := by
  cases a with
  | add p =>
    simp only [step] at hs
    split at hs
    · cases hs
    · rename_i op rest htodo
      split at hs
      · cases hs
        refine ⟨?_, ?_⟩
        · simp [← h.batches]
        · intro p'
          have hplan := h.programs p'
          by_cases hp : p = p'
          · subst hp
            simp [← hplan, htodo]
          · simp [← hplan, hp, Ne.symm hp]
      · cases hs
        exact h
  | makeBatch =>
    simp only [step] at hs
    split at hs
    · cases hs
      exact h
    · cases hs
      obtain ⟨hbatch, hrest⟩ := drain_eq s.queue.count s.queue rfl
      exact ⟨by simp [hbatch, hrest, ← h.batches], h.programs⟩

/-- **Exactly once, in order**: at any time the batches and then the queue are the operations in the order in which
their `Add` ended, and what a producer has added and has still to add is its plan. -/
theorem batches_inOrder (memory : ℕ → Op) (hsize : 0 < queueSize) (plan : Producer → List Op)
    (turns : List (Turn Producer)) (s : State Producer Op queueSize)
    (h : exec step ⟨.empty memory hsize, plan, [], []⟩ turns = some s) :
    s.batches.flatten ++ s.queue.items = s.added.map Prod.snd ∧
      (∀ p, (s.added.filter (·.1 = p)).map Prod.snd ++ s.todo p = plan p) ∧
      s.queue.items.length = s.queue.count ∧ s.queue.count ≤ queueSize := by
  have hreach := Reach.of_exec step anyStep turns _ h (guarded_anyStep step turns _)
  have hkept := hreach.invariant (Kept plan) ⟨rfl, fun _ => rfl⟩ fun _ a _ hs _ ht => hs.next a ht
  exact ⟨hkept.batches, hkept.programs, s.queue.length_items, s.queue.count_le⟩

/-- Two producers at a queue of one place: the second one waits for the first batch. -/
def waiting : Option (State Bool ℕ 1) :=
  exec step ⟨.empty (fun _ => 0) Nat.one_pos, fun p => if p then [7] else [8], [], []⟩
    [.add true, .add false, .makeBatch, .add false, .makeBatch]

theorem batches_inOrder_waiting : ∃ s, waiting = some s ∧ s.batches = [[7], [8]] ∧
    s.batches.flatten ++ s.queue.items = s.added.map Prod.snd := by
  refine ⟨waiting.get rfl, rfl, by decide, ?_⟩
  exact (batches_inOrder _ Nat.one_pos _ _ _ (Option.some_get rfl).symm).1

end Btos.Modules.OperationQueue
