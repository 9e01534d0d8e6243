import Mathlib.Data.List.Nodup
import Btos.Kernel.Messaging.Queue

/-!
# What a process receives

`RecieveMessage` remembers in the process which message it has handed out: as long as that message
is queued it returns it again, **without a look at its addressee**.  `Process` does not initialise
the field.  So what a process receives first depends on what was in the memory of its object.

* `Mine` — the invariant of the field: **once it has been written**, a queued message under the id in
  it is for the process, whatever is sent, acknowledged or cleared by others.

`Btos.Kernel.Messaging.Delivery` has the runs.
-/

namespace Btos.Kernel.Messaging

open Lib.Transition List Function

/-! ### Receive handles -/

/-- `MessageRecieveHandle`.  `msg` is `none` where `msg.valid` is false; `taken` is the queue at the
`Wait` that filled it (it is only recorded). -/
structure RecieveHandle where
  pid : Pid
  filter : MsgFilter
  msg : Option MsgHeader
  taken : List Message

/-- The system with its handles.  `born p` is what the field of `p` held when its object was made. -/
structure Office where
  world : World
  handles : ℕ → Option RecieveHandle
  born : Pid → ℕ

/-- What can happen: a step of the system, or a call on a handle.  `locked` says whether `Wait` got the
two locks that it tries. -/
inductive Call where
  | act (a : Act)
  | createRecieveHandle (n : ℕ) (p : Pid) (f : MsgFilter)
  | wait (n : ℕ) (locked : Bool)
  | read (n : ℕ)
  deriving DecidableEq, Repr

/-- `Wait` may look for a message: the process exists and the locks are free. -/
def canLook (s : State) (h : RecieveHandle) (locked : Bool) : Bool := locked && s.status h.pid != .doesNotExist

/-- `Wait`: the manager and the handle after it. -/
def RecieveHandle.wait (s : State) (h : RecieveHandle) (locked : Bool) : State × RecieveHandle :=
  if canLook s h locked then
    match recieveMessageFiltered h.filter s h.pid with
    | some (s', msg) => (s', { h with msg := some msg, taken := s.messages })
    | none => (s, { h with msg := none })
  else (s, { h with msg := none })

def callStep (o : Office) : Call → Option Office
  | .act a => (step o.world a).map fun w => { o with world := w, born := bornAfter o.born a }
  | .createRecieveHandle n p f =>
      if (o.handles n).isSome then none
      else some { o with handles := update o.handles n (some ⟨p, f, none, []⟩) }
  | .wait n locked => (o.handles n).map fun h =>
      let r := h.wait o.world.mgr locked
      { o with
        world := { o.world with mgr := r.1 }
        handles := update o.handles n (some r.2) }
  | .read n => (o.handles n).map fun _ => o

/-- The system at the start: no handle, and every field as its process found it. -/
def openOffice (status : Pid → ProcStatus) (cur : Pid → ℕ) (junk : ℕ) : Office where
  world := init status cur junk
  handles _ := none
  born := cur

/-! ### What is returned -/

/-- A header that a call returns for process `pid`, with the filter of the call and the queue that the
header was taken from. -/
structure Returned where
  pid : Pid
  filter : Option MsgFilter
  header : MsgHeader
  queue : List Message

/-- The header is for the process, was queued, and matches the filter. -/
def Returned.Right (r : Returned) : Prop :=
  r.header.toPid = r.pid ∧ (∃ m ∈ r.queue, m.header = r.header) ∧
    ∀ f, r.filter = some f → doesMessageMatch r.header f = true

/-- What `RecieveMessage` returns. -/
def received (s : State) (p : Pid) (f : Option MsgFilter) : Option Returned :=
  (recieveMessageWith (fun h => f.all fun f => doesMessageMatch h f) s p).map fun r =>
    ⟨p, f, r.2, s.messages⟩

/-- What the next section of a thread at `k` returns; an aborted wait returns no message. -/
def returnedAt (s : State) : Pc → Option Returned
  | .await p => received s p none
  | .awaitCurrent p f =>
      ((getMessage s (s.currentMessageID p)).filter fun m => doesMessageMatch m.header f).map
        fun m => ⟨p, some f, m.header, s.messages⟩
  | .awaitFiltered p f =>
      (s.messages.find? fun m => m.header.toPid == p && doesMessageMatch m.header f).map
        fun m => ⟨p, some f, m.header, s.messages⟩
  | _ => none

/-- The header that a call returns; `Wait` returns it to the handle. -/
def returned (o : Office) : Call → Option Returned
  | .act (.btRecv _ p false) => received o.world.mgr p none
  | .act (.btRecvFiltered _ p f false) => received o.world.mgr p (some f)
  | .act (.go t) => returnedAt o.world.mgr (o.world.pc t)
  | .act _ => none
  | .createRecieveHandle _ _ _ => none
  | .wait n locked => (o.handles n).bind fun h =>
      if canLook o.world.mgr h locked then received o.world.mgr h.pid (some h.filter) else none
  | .read n => (o.handles n).bind fun h => h.msg.map fun msg => ⟨h.pid, some h.filter, msg, h.taken⟩

def ReturnsRight (o : Office) (c : Call) : Prop := ∀ r, returned o c = some r → r.Right

/-! ### The condition -/

/-- The field of `p` is not as the process found it, or does not name a message for another process that
the filter lets through. -/
def FieldOk (o : Office) (p : Pid) (f : Option MsgFilter) : Prop :=
  o.world.mgr.currentMessageID p = o.born p → ∀ m ∈ o.world.mgr.messages,
    m.header.id = o.born p → (f.all fun f => doesMessageMatch m.header f) = true → m.header.toPid = p

instance (o : Office) (p : Pid) (f : Option MsgFilter) : Decidable (FieldOk o p f) :=
  inferInstanceAs (Decidable (_ → ∀ m ∈ o.world.mgr.messages, _ → _ → _))

/-- The process and the filter with which a call looks at the field. -/
def looksAt (o : Office) : Call → Option (Pid × Option MsgFilter)
  | .act (.btRecv _ p false) => some (p, none)
  | .act (.btRecvFiltered _ p f false) => some (p, some f)
  | .act (.go t) =>
      match o.world.pc t with
      | .await p => some (p, none)
      | .awaitCurrent p f => some (p, some f)
      | _ => none
  | .wait n locked => (o.handles n).bind fun h =>
      if canLook o.world.mgr h locked then some (h.pid, some h.filter) else none
  | _ => none

/-- The field that a call looks at is as it should be. -/
def LookOk (o : Office) (c : Call) : Prop := ∀ q ∈ looksAt o c, FieldOk o q.1 q.2

instance (o : Office) (c : Call) : Decidable (LookOk o c) :=
  inferInstanceAs (Decidable (∀ q ∈ looksAt o c, FieldOk o q.1 q.2))

/-! ### The invariant of the field -/

/-- **What a step writes to the fields.** -/
theorem step_wrote (h : step w a = some w') : Wrote (bornAfter w.mgr.currentMessageID a) w.mgr w'.mgr := by
  rcases step_inv h with ⟨t, s', k, new, rfl, hr, rfl⟩ | ⟨t, rfl, -, rfl⟩ | ⟨-, s', k, hr, rfl⟩
  · rcases advance_cases hr with ⟨hmild, -⟩ | ⟨msg, -, rfl, -⟩ | ⟨msg, -, -, hadd, -⟩
    · exact hmild.wrote
    · exact fun p => .inl rfl
    · rcases (addMessage_some hadd).1 with rfl | rfl <;> exact fun p => .inl rfl
  · exact (Mild.refl w.mgr).wrote
  · exact (enter_cases hr).2.2

/-- The id `v` is one of `p`: a message that has it, now or later, is for `p`. -/
structure Mine (w : World) (p : Pid) (v : ℕ) : Prop where
  issued : v ≤ w.mgr.issued
  queued : ∀ m ∈ w.mgr.messages, m.header.id = v → m.header.toPid = p
  hands : ∀ t msg, (w.pc t).inHand = some msg → msg.header.id ≠ v

theorem mine_zero (ht : Tidy w) (p : Pid) : Mine w p 0 where
  issued := Nat.zero_le _
  queued m hm h0 := absurd h0 (Nat.ne_of_gt (ht.ids m hm).1)
  hands t msg h := Nat.ne_of_gt (ht.handIds t msg h).1

theorem mine_of_mem (ht : Tidy w) (hm : m ∈ w.mgr.messages) : Mine w m.header.toPid m.header.id where
  issued := (ht.ids m hm).2
  queued m' hm' hid := by
    rw [inj_on_of_nodup_map ht.distinct hm' hm hid]
  hands t msg h := Ne.symm ((ht.handIds t msg h).2.2 m hm)

/-- **No step gives an id of `p` to a message for another process.** -/
theorem Mine.step (h : Mine w p v) (ht : Tidy w)
    (hs : step w a = some w') (hb : w'.mgr.issued < 2 ^ 64) : Mine w' p v := by
  refine ⟨Nat.le_trans h.issued (issued_le hs), ?_, ?_⟩
  · intro m hm hid
    rcases step_mem hs hm with hold | hadd | ⟨-, hfresh⟩
    · exact h.queued m hold hid
    · exact absurd hid (h.hands a.thread m (by rw [hadd]; rfl))
    · -- the id of a new kernel message is above all ids so far
      have := hfresh hb ht.counter
      have := h.issued
      omega
  · intro t m hm
    obtain ⟨k', hpc, ⟨-, hturn, -⟩ | ⟨msg, -, hmgr, rfl, -⟩ | ⟨msg, -, rfl, -⟩⟩ := step_cases hs
    · exact h.hands t m (inHand_of_turn hpc hturn hm)
    · rw [hpc] at hm
      by_cases hta : t = a.thread
      · subst hta
        rw [update_self] at hm
        cases hm
        have hissued : w'.mgr.issued = w.mgr.issued + 1 := by rw [hmgr]; rfl
        have hid : (nextID w.mgr).2 = w.mgr.issued + 1 :=
          (nextID_posted w.mgr).counter (by rw [hissued] at hb; exact hb) ht.counter
        show (nextID w.mgr).2 ≠ v
        have := h.issued
        omega
      · rw [update_of_ne hta] at hm
        exact h.hands t m hm
    · exact h.hands t m (inHand_of_done hpc hm).2

end Btos.Kernel.Messaging
