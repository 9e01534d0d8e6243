import Btos.Kernel.Messaging.Queue

/-!
# Who may consume a message

`BT_ACK`, `BT_NEXTMSG`, `BT_NEXTMSGFILTERED` and `BT_CONTENT` take a header from the caller and look
the message up by the `id` in it, and by nothing else: **neither handler asks whether the message is
addressed to the caller**, although `RecieveMessage` only hands out messages that are, and
`SendMessage` checks both ends of a reply.

* `only_permitted_iff` — a run consumes only what it may **exactly if** at each of its steps the id in
  the caller's header does not name a message for another process (`HeaderOk`).
-/

namespace Btos.Kernel.Messaging

open Lib.Transition Lib.Lists List Option

/-- The message whose content a call returns; an empty message has no content to return. -/
def contentReturned (s : State) : Act → Option Message
  | .btContent _ _ h => (getMessage s h.id).filter fun m => !m.content.isEmpty
  | _ => none

/-- From `w` to `w'`, act `a` removes the queued message `m` or returns its content. -/
def Consumed (w : World) (a : Act) (w' : World) (m : Message) : Prop :=
  m ∈ w.mgr.messages ∧ (m ∉ w'.mgr.messages ∨ contentReturned w.mgr a = some m)

/-- The acts that may consume `m`. -/
def PermittedFor (m : Message) : Act → Prop
  | .btAck _ p _ | .btNextMsg _ p _ | .btNextMsgFiltered _ p _ _ | .btContent _ p _ =>
      p = m.header.toPid
  | .clearMessages _ p => p = m.header.toPid ∨ p = m.header.fromPid
  | _ => False

/-- Every message that `a` consumes is one it may consume. -/
def OnlyPermitted (w : World) (a : Act) : Prop :=
  ∀ w' m, step w a = some w' → Consumed w a w' m → PermittedFor m a

/-- The id that the caller passes does not name a message for another process; for `BT_CONTENT`
only messages with content count. -/
def HeaderOk (s : State) : Act → Prop
  | .btAck _ p h | .btNextMsg _ p h | .btNextMsgFiltered _ p _ h =>
      ∀ m ∈ s.messages, m.header.id = h.id → m.header.toPid = p
  | .btContent _ p h =>
      ∀ m ∈ s.messages, m.header.id = h.id → m.content.isEmpty = false → m.header.toPid = p
  | _ => True

/-! ### What goes from the queue -/

theorem takes_of_gone (h : step w a = some w')
    (hm : m ∈ w.mgr.messages) (hn : m ∉ w'.mgr.messages) : a.takes m := by
  obtain ⟨k', -, ⟨⟨l, rs, s1, -, hgone, hp, hms, -⟩, -⟩ | ⟨msg, -, hmgr, -⟩ |
    ⟨msg, -, -, hadd, -⟩⟩ := step_cases h
  · refine hgone m hm ?_
    intro hl
    rw [hms, hp.messages] at hn
    exact hn (mem_append_left _ hl)
  · rw [hmgr] at hn
    exact absurd hm hn
  · rcases (addMessage_some hadd).1 with hmgr | hmgr
    · rw [hmgr] at hn
      exact absurd hm hn
    · rw [hmgr] at hn
      exact absurd (mem_append_left _ hm) hn

theorem acknowledged_gone (hd : (s.messages.map fun m => m.header.id).Nodup) (hm : m ∈ s.messages) (hid : m.header.id = h.id) (p : Pid)
    (k : After) : m ∉ (acknowledgeMessage s p h k).1.messages := by
  have hhave : haveMessage s h.id = true := any_eq_true.2 ⟨m, hm, hasID_iff.2 hid⟩
  have hmsgs : (acknowledgeMessage s p h k).1.messages = s.messages.eraseP (Message.hasID h.id) := by
    rw [acknowledgeMessage, if_pos hhave]
    show (acknowledge s p h.id).messages = _
    unfold acknowledge
    split <;> rfl
  have hone : s.messages.countP (Message.hasID h.id) ≤ 1 :=
    countP_le_one_of_nodup hd fun a ha => hasID_iff.1 ha
  intro hin
  rw [hmsgs] at hin
  have hno := (forall_not_eraseP_iff _ _).2 hone m hin
  rw [hasID_iff.2 hid] at hno
  cases hno

theorem consumed_of_acknowledges (ht : Tidy w) (henter : enter w.mgr a = some (acknowledgeMessage w.mgr p h k))
    (hs : ∃ k, enter w.mgr a = some (w'.mgr, k)) (hm : m ∈ w.mgr.messages)
    (hid : m.header.id = h.id) : Consumed w a w' m := by
  obtain ⟨k', hk'⟩ := hs
  have hmgr : acknowledgeMessage w.mgr p h k = (w'.mgr, k') :=
    some.inj (henter.symm.trans hk')
  have hgone := acknowledged_gone ht.distinct hm hid p k
  rw [hmgr] at hgone
  exact ⟨hm, .inl hgone⟩

/-! ### Who takes it -/

/-- If the caller's id does not name another's message, nothing is consumed without permission. -/
theorem onlyPermitted_of_headerOk (hok : HeaderOk w.mgr a) : OnlyPermitted w a := by
  rintro w' m hs ⟨hm, hgone | hread⟩
  · have htakes := takes_of_gone hs hm hgone
    cases a with
    | btAck t p h | btNextMsg t p h | btNextMsgFiltered t p f h => exact (hok m hm htakes).symm
    | clearMessages t p =>
      have hc : m.header.toPid = p ∨ m.header.fromPid = p := by
        simpa [Act.takes, concerns] using htakes
      exact hc.imp Eq.symm Eq.symm
    | _ => exact htakes.elim
  · cases a with
    | btContent t p h =>
      obtain ⟨hget, hne⟩ := filter_eq_some_iff.1 hread
      have hid := (getMessage_some hget).2
      exact (hok m hm hid (by simpa using hne)).symm
    | _ => cases hread

theorem headerOk_of_onlyPermitted (ht : Tidy w)
    (hs : step w a = some w') (h : OnlyPermitted w a) : HeaderOk w.mgr a := by
  cases a with
  | btAck t p hd | btNextMsg t p hd | btNextMsgFiltered t p f hd =>
    intro m hm hid
    rcases step_inv hs with ⟨t', _, _, _, ha, -⟩ | ⟨t', ha, -⟩ | ⟨-, s', k, hr, rfl⟩
    · cases ha
    · cases ha
    exact (h _ m hs (consumed_of_acknowledges ht rfl ⟨k, hr⟩ hm hid)).symm
  | btContent t p hd =>
    intro m hm hid hne
    have hget : getMessage w.mgr hd.id = some m :=
      find?_of_countP_le_one (countP_le_one_of_nodup ht.distinct fun a ha => hasID_iff.1 ha) hm
        (hasID_iff.2 hid)
    have hread : contentReturned w.mgr (.btContent t p hd) = some m := by
      simp [contentReturned, hget, hne]
    exact (h w' m hs ⟨hm, .inr hread⟩).symm
  | _ => trivial

/-- **Who can consume a message.**  In every run (in which the id counter does not wrap), messages are
consumed only by those who may exactly if at each step the id that the caller passes does not name a
message for another process. -/
theorem only_permitted_iff {status : Pid → ProcStatus} {cur : Pid → ℕ} {junk : ℕ} {acts : List Act}
    {w : World} (hrun : exec step (init status cur junk) acts = some w) (hb : w.mgr.issued < 2 ^ 64) :
    Guarded step OnlyPermitted (init status cur junk) acts ↔
      Guarded step (fun w a => HeaderOk w.mgr a) (init status cur junk) acts := by
  refine guarded_congr (fun w => w.mgr.issued < 2 ^ 64) ?_ ?_ acts hrun hb
  · intro w a w' hs hw'
    exact Nat.lt_of_le_of_lt (issued_le hs) hw'
  · intro w a w' hreach hw hs
    exact ⟨headerOk_of_onlyPermitted (Tidy.reach hreach hw) hs, onlyPermitted_of_headerOk⟩

/-- Process 3 has sent the byte 7 to process 2. -/
def oneSent : List Act := [.btSend 1 3 { (userMessage 0 3 2).header with length := 1 } [7], .go 1, .go 1, .go 1]

/-- Process 2 reads that message and acknowledges it. -/
theorem only_permitted_iff_receiver :
    ∃ w, exec step (init (fun _ => .running) (fun _ => 0) 0) (oneSent ++
        [.btContent 2 2 (userMessage 1 3 2).header, .btAck 2 2 (userMessage 1 3 2).header]) =
          some w ∧ w.mgr.messages = [] ∧
      Guarded step OnlyPermitted (init (fun _ => .running) (fun _ => 0) 0) (oneSent ++
        [.btContent 2 2 (userMessage 1 3 2).header, .btAck 2 2 (userMessage 1 3 2).header]) := by
  refine ⟨_, rfl, by decide, (only_permitted_iff rfl (by decide)).2 ?_⟩
  refine ⟨trivial, trivial, trivial, trivial, ?_, ?_, trivial⟩
  · intro m hm _ _
    rw [mem_singleton.1 hm]
    rfl
  · intro m hm _
    rw [mem_singleton.1 hm]
    rfl

/-- Process 4, which has nothing to do with that message, reads its content and removes it. -/
theorem stranger_consumes :
    messageContent ((exec step (init (fun _ => .running) (fun _ => 0) 0) oneSent).get
      (by decide)).mgr 1 = .bytes [7] ∧ ¬Guarded step OnlyPermitted (init (fun _ => .running) (fun _ => 0) 0)
      (oneSent ++ [.btContent 4 4 (userMessage 1 3 2).header]) ∧
    ¬Guarded step OnlyPermitted (init (fun _ => .running) (fun _ => 0) 0)
      (oneSent ++ [.btAck 4 4 (userMessage 1 3 2).header]) := by
  refine ⟨by decide, ?_, ?_⟩
  · rintro ⟨-, -, -, -, h, -⟩
    have h42 : 4 = 2 := h _ _ rfl ⟨mem_singleton.2 rfl, .inr rfl⟩
    cases h42
  · rintro ⟨-, -, -, -, h, -⟩
    have h42 : 4 = 2 := h _ _ rfl ⟨mem_singleton.2 rfl, .inl (by decide)⟩
    cases h42

end Btos.Kernel.Messaging
