import Btos.Kernel.Messaging.System

/-!
# Waiting for a message and asking for one

`AwaitMessage(filter, proc)` and `RecieveMessage(msg, filter, proc)` hold two copies of one scan.
Where a message for the process matches they hand out the same header, but they keep different books:
the blocking form returns the current message without a word to the thread, and returns a message of the
queue **without making it the current one**.

* `Receiver` — the manager with the messaging status of the calling thread;
* `awaitMessage_agrees_iff` — when the two forms leave the same state.
-/

namespace Btos.Kernel.Messaging

open List Option Function

inductive ThreadMsgStatus where
  | normal | waiting | processing
  deriving DecidableEq, Repr

/-- The manager and the status of `CurrentThread()`. -/
structure Receiver where
  manager : State
  status : ThreadMsgStatus

namespace Receiver

/-- The current message of the process, where it matches the filter. -/
def current (f : MsgFilter) (r : Receiver) (p : Pid) : Option Message :=
  (getMessage r.manager (r.manager.currentMessageID p)).filter fun m => doesMessageMatch m.header f

/-- The scan: the first queued message for the process that matches. -/
def scan (f : MsgFilter) (r : Receiver) (p : Pid) : Option Message :=
  r.manager.messages.find? fun m => m.header.toPid == p && doesMessageMatch m.header f

/-- `RecieveMessage(msg, filter, proc)`: the manager's part, and the thread is `Processing` wherever a
message is returned. -/
def recieveMessage (f : MsgFilter) (r : Receiver) (p : Pid) : Option (Receiver × MsgHeader) :=
  (recieveMessageFiltered f r.manager p).map fun q => (⟨q.1, .processing⟩, q.2)

/-- `AwaitMessage(filter, proc)` up to its first block, which is `none`. -/
def awaitMessage (f : MsgFilter) (r : Receiver) (p : Pid) : Option (Receiver × MsgHeader) :=
  match r.current f p with
  | some cmsg => some (r, cmsg.header)
  | none => (r.scan f p).map fun m => ({ r with status := .processing }, m.header)

variable {f : MsgFilter} {r : Receiver} {p : Pid}

theorem recieveMessage_eq (f : MsgFilter) (r : Receiver) (p : Pid) :
    r.recieveMessage f p = match r.current f p with
      | some cmsg => some (⟨r.manager, .processing⟩, cmsg.header)
      | none => (r.scan f p).map fun m =>
          (⟨setCurrentMessageID r.manager p m.header.id, .processing⟩, m.header) := by
  unfold recieveMessage recieveMessageFiltered recieveMessageWith current scan
  cases (getMessage r.manager (r.manager.currentMessageID p)).filter
      (fun m => doesMessageMatch m.header f) with
  | some cmsg => rfl
  | none => simp only [Option.map_map, comp_def]

/-- What makes the books agree: the current message matches and the thread already has the status, or the
message found is under the id that is already the current one (two messages then share it). -/
def BooksAgree (f : MsgFilter) (r : Receiver) (p : Pid) : Prop :=
  if (r.current f p).isSome then r.status = .processing
  else ∀ m ∈ r.scan f p, r.manager.currentMessageID p = m.header.id

instance : Decidable (BooksAgree f r p) := inferInstanceAs (Decidable (ite _ _ _))

theorem setCurrentMessageID_eq_self_iff {id : ℕ} :
    setCurrentMessageID s p id = s ↔ s.currentMessageID p = id := by
  constructor
  · intro h
    rw [← h]
    exact update_self _ _ _
  · rintro rfl
    simp only [setCurrentMessageID, update_eq_self]

/-- **The two forms.**  Where a matching message is queued both return, and they return the same header and
leave the same state exactly if their books agree. -/
theorem awaitMessage_agrees_iff (f : MsgFilter) (r : Receiver) (p : Pid)
    (hq : ∃ m ∈ r.manager.messages, m.header.toPid = p ∧ doesMessageMatch m.header f = true) :
    (∃ r' h, r.awaitMessage f p = some (r', h) ∧ r.recieveMessage f p = some (r', h)) ↔ BooksAgree f r p := by
  have hscan : ∃ m, r.scan f p = some m := by
    obtain ⟨m, hm, hp, hf⟩ := hq
    exact isSome_iff_exists.1 (find?_isSome.2 ⟨m, hm, by simp [hp, hf]⟩)
  obtain ⟨m, hm⟩ := hscan
  rw [recieveMessage_eq, awaitMessage, BooksAgree]
  cases hc : r.current f p with
  | some cmsg =>
    obtain ⟨s, status⟩ := r
    simp [eq_comm]
  | none =>
    simpa [hm, eq_comm] using setCurrentMessageID_eq_self_iff

/-- A queue with two messages for process 1, of types 7 and 8, and no current message. -/
def twoQueued : Receiver where
  manager :=
    { messages := [(newMessage ⟨true, 1, 0, 0, 0, 2, 1, 7, 0, false, false, false⟩ (.bytes [])),
        (newMessage ⟨true, 2, 0, 0, 0, 3, 1, 8, 0, false, false, false⟩ (.bytes []))]
      idCounter := 2, subscribers := [], status := fun _ => .running, currentMessageID := fun _ => 0,
      replyIdJunk := 0, issued := 2 }
  status := .normal

def typeEight : MsgFilter := ⟨1 <<< 2, 0, 0, 8, 0⟩

theorem awaitMessage_agrees_iff_twoQueued :
    ¬∃ r' h, twoQueued.awaitMessage typeEight 1 = some (r', h) ∧
      twoQueued.recieveMessage typeEight 1 = some (r', h) := by
  rw [awaitMessage_agrees_iff typeEight twoQueued 1 ⟨_, mem_cons_of_mem _ (.head _), by decide⟩]
  decide

/-- **A message is received twice or not.**  Both forms return message 2; after the polling form the next
unfiltered receive returns it again, after the blocking form it returns message 1. -/
theorem awaitMessage_forgets_current :
    ((twoQueued.awaitMessage typeEight 1).map fun q => q.2.id) = some 2 ∧
      ((twoQueued.recieveMessage typeEight 1).map fun q => q.2.id) = some 2 ∧
      ((twoQueued.awaitMessage typeEight 1).bind fun q =>
        (Messaging.recieveMessage q.1.manager 1).map fun q => q.2.id) = some 1 ∧
      ((twoQueued.recieveMessage typeEight 1).bind fun q =>
        (Messaging.recieveMessage q.1.manager 1).map fun q => q.2.id) = some 2 := by
  decide

end Receiver

end Btos.Kernel.Messaging
