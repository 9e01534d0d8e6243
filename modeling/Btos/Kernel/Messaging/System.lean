import Btos.Kernel.Messaging.Clear
import Btos.Lib.Transition

/-!
# Threads in the message manager

Any number of threads call the manager.  A call that gives up `messageLock` between its critical
sections leaves its thread at a point `Pc`; the step `go t` lets thread `t` do its next section.
The points of `SendMessage` follow `kernel/messaging.cpp`: the look at the destination, the look at
the answered message, `NextID`, and the loop of `AddMessage` with its block.  The points of the
acknowledging calls are the receipt and, for the next-message calls, the wait.

* `step_cases` — **what a step can do to the queue**: a thread draws a number (`Numbers`), a thread
  pushes its message (`Pushes`), or messages go and kernel messages come (`Reshaped`).

A reader of `World.accepted` finds the messages that `SendMessage` calls have queued so far; nothing
in the system reads it.
-/

namespace Btos.Kernel.Messaging

open Lib.Transition Function List Option

/-- What a call does after its receipt: return, or wait for the next message. -/
inductive After where
  | done
  | await (p : Pid)
  | awaitFiltered (p : Pid) (f : MsgFilter)
  deriving DecidableEq, Repr

/-- Where a thread stands in a call of the manager. -/
inductive Pc where
  | idle
  /-- `SendMessage`: about to look whether the destination exists. -/
  | sendCheck (msg : Message)
  /-- `SendMessage`, a reply: about to look at the message it answers. -/
  | sendReply (msg : Message)
  /-- `SendMessage`: about to call `NextID`. -/
  | sendNumber (msg : Message)
  /-- `AddMessage`: about to enter its critical section. -/
  | sendAdd (msg : Message)
  /-- `AddMessage`: blocked while the slot is taken. -/
  | sendBlocked (msg : Message)
  /-- `AcknowledgeMessage`: about to send the receipts for the header it was given. -/
  | receipt (h : MsgHeader) (k : After)
  /-- `AwaitMessage(proc)`. -/
  | await (p : Pid)
  /-- `AwaitMessage(filter, proc)`: about to look at the current message. -/
  | awaitCurrent (p : Pid) (f : MsgFilter)
  /-- `AwaitMessage(filter, proc)`: in its loop. -/
  | awaitFiltered (p : Pid) (f : MsgFilter)
  deriving DecidableEq, Repr

/-- The point at which the rest of a call begins. -/
def After.pc : After → Pc
  | .done => .idle
  | .await p => .await p
  | .awaitFiltered p f => .awaitCurrent p f

/-- The manager, every thread's place, and the record of queued messages. -/
structure World where
  mgr : State
  pc : ℕ → Pc
  accepted : List Message

/-- What can happen.  `t` is a thread, `p` the process it belongs to, `h` a header it passes. -/
inductive Act where
  | send (t : ℕ) (h : MsgHeader) (c : Content)
  | btSend (t : ℕ) (p : Pid) (h : MsgHeader) (b : List ℕ)
  | btRecv (t : ℕ) (p : Pid) (block : Bool)
  | btRecvFiltered (t : ℕ) (p : Pid) (f : MsgFilter) (block : Bool)
  | btNextMsg (t : ℕ) (p : Pid) (h : MsgHeader)
  | btNextMsgFiltered (t : ℕ) (p : Pid) (f : MsgFilter) (h : MsgHeader)
  | btContent (t : ℕ) (p : Pid) (h : MsgHeader)
  | btAck (t : ℕ) (p : Pid) (h : MsgHeader)
  | btSubscribe (t : ℕ) (p : Pid) (message : ℕ)
  | btUnsubscribe (t : ℕ) (p : Pid) (message : ℕ)
  | kernelEvent (t : ℕ) (message : ℕ) (content : List ℕ)
  | clearMessages (t : ℕ) (p : Pid)
  | newProcess (t : ℕ) (p : Pid) (currentMessageID : ℕ)
  | setStatus (t : ℕ) (p : Pid) (st : ProcStatus)
  | abort (t : ℕ)
  | go (t : ℕ)
  deriving DecidableEq, Repr

def Act.thread : Act → ℕ
  | .send t _ _ | .btSend t _ _ _ | .btRecv t _ _ | .btRecvFiltered t _ _ _ | .btNextMsg t _ _
  | .btNextMsgFiltered t _ _ _ | .btContent t _ _ | .btAck t _ _ | .btSubscribe t _ _
  | .btUnsubscribe t _ _ | .kernelEvent t _ _ | .clearMessages t _ | .newProcess t _ _
  | .setStatus t _ _ | .abort t | .go t => t

/-! ### The step function -/

/-- The header of `BT_SEND` after the handler has stamped it. -/
def stampHeader (p : Pid) (h : MsgHeader) : MsgHeader :=
  { h with flags := h.flags ||| MsgFlag.userSpace, fromPid := p, critical := false }

/-- The first section of `AcknowledgeMessage(h)` by process `p`, and where its thread goes next. -/
def acknowledgeMessage (s : State) (p : Pid) (h : MsgHeader) (k : After) : State × Pc :=
  if haveMessage s h.id then (acknowledge s p h.id, .receipt h k) else (s, k.pc)

/-- A call begins: the manager after the first section, and the place of the calling thread. -/
def enter (s : State) : Act → Option (State × Pc)
  | .send _ h c => some (s, .sendCheck (newMessage h c))
  | .btSend _ p h b =>
      if b.length ≠ h.length then none
      else if h.length > msgMax then some (s, .idle)
      else some (s, .sendCheck (newMessage (stampHeader p h) (.bytes b)))
  | .btRecv _ p block =>
      if block then some (s, .await p)
      else some (((recieveMessage s p).map Prod.fst).getD s, .idle)
  | .btRecvFiltered _ p f block =>
      if block then some (s, .awaitCurrent p f)
      else some (((recieveMessageFiltered f s p).map Prod.fst).getD s, .idle)
  | .btNextMsg _ p h => some (acknowledgeMessage s p h (.await p))
  | .btNextMsgFiltered _ p f h => some (acknowledgeMessage s p h (.awaitFiltered p f))
  | .btContent _ _ _ => some (s, .idle)
  | .btAck _ p h => some (acknowledgeMessage s p h .done)
  | .btSubscribe _ p message => some (subscribe s p message, .idle)
  | .btUnsubscribe _ p message => some (unSubscribe s p message, .idle)
  | .kernelEvent _ message content => some (sendKernelEvent s message content, .idle)
  | .clearMessages _ p => some (clearMessages s p, .idle)
  | .newProcess _ p cid =>
      some (setCurrentMessageID { s with status := update s.status p .starting } p cid, .idle)
  | .setStatus _ p st => some ({ s with status := update s.status p st }, .idle)
  | .abort _ | .go _ => none

/-- The next section of a thread that is at `k`; the list is what it has queued. -/
def advance (s : State) : Pc → Option (State × Pc × List Message)
  | .idle => none
  | .sendCheck msg =>
      if destinationMissing s msg then some (s, .idle, [])
      else if msg.header.isReply then some (s, .sendReply msg, [])
      else some (s, .sendNumber msg, [])
  | .sendReply msg =>
      if replyRefused s msg then some (s, .idle, [])
      else some (markReplied s msg, .sendNumber msg, [])
  | .sendNumber msg => some ((nextID s).1, .sendAdd (msg.withID (nextID s).2), [])
  | .sendAdd msg =>
      match addMessage s msg with
      | none => some (s, .sendBlocked msg, [])
      | some s' => some (s', .idle, if s.status msg.header.toPid ≠ .doesNotExist then [msg] else [])
  | .sendBlocked msg =>
      if s.messages.any (occupies msg.header) then none else some (s, .sendAdd msg, [])
  | .receipt h k => some (sendMessageReciept s h, k.pc, [])
  | .await p => (recieveMessage s p).map fun r => (r.1, .idle, [])
  | .awaitCurrent p f =>
      match (getMessage s (s.currentMessageID p)).filter fun m => doesMessageMatch m.header f with
      | some _ => some (s, .idle, [])
      | none => some (s, .awaitFiltered p f, [])
  | .awaitFiltered p f =>
      if s.messages.any fun m => m.header.toPid == p && doesMessageMatch m.header f then
        some (s, .idle, [])
      else none

def Pc.abortable : Pc → Bool
  | .await _ | .awaitFiltered _ _ => true
  | _ => false

def step (w : World) (a : Act) : Option World :=
  match a with
  | .go t =>
      (advance w.mgr (w.pc t)).map fun r =>
        ⟨r.1, update w.pc t r.2.1, w.accepted ++ r.2.2⟩
  | .abort t =>
      if (w.pc t).abortable then some { w with pc := update w.pc t .idle } else none
  | a =>
      if w.pc a.thread = .idle then
        (enter w.mgr a).map fun r => { w with mgr := r.1, pc := update w.pc a.thread r.2 }
      else none

/-- The manager as it is constructed, over processes in any state. -/
def init (status : Pid → ProcStatus) (currentMessageID : Pid → ℕ) (junk : ℕ) : World where
  mgr :=
    { messages := [], idCounter := 0, subscribers := [], status := status,
      currentMessageID := currentMessageID, replyIdJunk := junk, issued := 0 }
  pc := fun _ => .idle
  accepted := []

/-! ### What a step can do -/

/-- The message a thread carries through `SendMessage`. -/
def Pc.carried : Pc → Option Message
  | .sendCheck msg | .sendReply msg | .sendNumber msg | .sendAdd msg | .sendBlocked msg => some msg
  | _ => none

/-- The message that has its number and is not queued yet. -/
def Pc.inHand : Pc → Option Message
  | .sendAdd msg | .sendBlocked msg => some msg
  | _ => none

/-- A thread moves on without numbering or queueing a message. -/
inductive Turn (s : State) : Pc → Pc → Prop where
  | called (h : MsgHeader) (c : Content) : Turn s .idle (.sendCheck (newMessage h c))
  | plain (msg : Message) : msg.header.isReply = false → Turn s (.sendCheck msg) (.sendNumber msg)
  | reply (msg : Message) : msg.header.isReply = true → Turn s (.sendCheck msg) (.sendReply msg)
  | allowed (msg : Message) : replyRefused s msg = false → Turn s (.sendReply msg) (.sendNumber msg)
  | blocks (msg : Message) : Turn s (.sendAdd msg) (.sendBlocked msg)
  | wakes (msg : Message) : Turn s (.sendBlocked msg) (.sendAdd msg)
  | free (k k' : Pc) : k'.carried = none → Turn s k k'

/-- Some messages, all of them `gone`, have left the queue, and kernel messages have come behind
the others. -/
def Reshaped (gone : Message → Prop) (s s' : State) : Prop :=
  ∃ l rs s₁, l.Sublist s.messages ∧ (∀ m ∈ s.messages, m ∉ l → gone m) ∧ Posted { s with messages := l } s₁ rs ∧
    s'.messages = s₁.messages ∧ s'.issued = s₁.issued ∧ s'.idCounter = s₁.idCounter

/-- The messages that an act may take out of the queue. -/
def Act.takes (a : Act) (m : Message) : Prop :=
  match a with
  | .btAck _ _ h | .btNextMsg _ _ h | .btNextMsgFiltered _ _ _ h => m.header.id = h.id
  | .clearMessages _ p => concerns p m = true
  | _ => False

variable {gone : Message → Prop}

variable {s s' : State} {a : Act}

theorem Reshaped.of_posted (h : Posted s s' rs) : Reshaped gone s s' :=
  ⟨s.messages, rs, s', List.Sublist.refl _, fun _ hm hn => absurd hm hn, h, rfl, rfl, rfl⟩

theorem Reshaped.of_same (hm : s'.messages = s.messages) (hi : s'.issued = s.issued)
    (hc : s'.idCounter = s.idCounter) : Reshaped gone s s' :=
  ⟨s.messages, [], s, List.Sublist.refl _, fun _ hm hn => absurd hm hn, Posted.refl s, hm, hi, hc⟩

theorem Reshaped.refl (s : State) : Reshaped gone s s := .of_same rfl rfl rfl

theorem Reshaped.mono (hgone : ∀ m, gone m → gone' m) (h : Reshaped gone s s') : Reshaped gone' s s' := by
  obtain ⟨l, rs, s1, hsub, hout, hp⟩ := h
  exact ⟨l, rs, s1, hsub, fun m hm hn => hgone m (hout m hm hn), hp⟩

/-- The first message that meets `q` is erased, and kernel messages may follow. -/
theorem Reshaped.of_eraseP (hgone : ∀ m, q m = true → gone m)
    (hp : Posted { s with messages := s.messages.eraseP q } s₁ rs)
    (hm : s'.messages = s₁.messages) (hi : s'.issued = s₁.issued)
    (hc : s'.idCounter = s₁.idCounter) : Reshaped gone s s' := by
  refine ⟨_, rs, s₁, eraseP_sublist, ?_, hp, hm, hi, hc⟩
  intro m hmem hnot
  by_cases hq : q m = true
  · exact hgone m hq
  · exact absurd ((mem_eraseP_of_neg hq).2 hmem) hnot

/-! ### Sections that take no message out of the queue -/

def bornAfter (born : Pid → ℕ) : Act → Pid → ℕ
  | .newProcess _ p cid => update born p cid
  | _ => born

/-- The fields after a section in `s` that leads to `s'`: a field is as in `cur`, is cleared, or holds the
id of a queued message for its process. -/
def Wrote (cur : Pid → ℕ) (s s' : State) : Prop :=
  ∀ p, s'.currentMessageID p = cur p ∨ s'.currentMessageID p = 0 ∨
    ∃ m ∈ s.messages, m.header.toPid = p ∧ s'.currentMessageID p = m.header.id

/-- **What a section does to the manager** if it takes no message out of the queue, and numbers and queues none of
a caller. -/
structure Mild (cur : Pid → ℕ) (s s' : State) : Prop where
  reshaped : Reshaped (fun _ => False) s s'
  wrote : Wrote cur s s'
  kept : s.messages ⊆ s'.messages
  subscribers : s.subscribers.Nodup → s'.subscribers.Nodup

namespace Mild

variable {cur : Pid → ℕ} {s s' : State}

theorem of_same (hm : s'.messages = s.messages) (hi : s'.issued = s.issued) (hc : s'.idCounter = s.idCounter)
    (hcur : s'.currentMessageID = cur) (hsubs : s.subscribers.Nodup → s'.subscribers.Nodup) : Mild cur s s' :=
  ⟨.of_same hm hi hc, fun p => .inl (by rw [hcur]), by rw [hm]; exact List.Subset.refl _, hsubs⟩

theorem refl (s : State) : Mild s.currentMessageID s s := .of_same rfl rfl rfl rfl id

theorem of_posted (h : Posted s s' rs) : Mild s.currentMessageID s s' where
  reshaped := .of_posted h
  wrote p := .inl (by rw [h.currentMessageID])
  kept := by
    rw [h.messages]
    exact subset_append_left _ _
  subscribers hn := by
    rw [h.subscribers]
    exact hn

theorem of_select (hm : m ∈ s.messages) :
    Mild s.currentMessageID s (setCurrentMessageID s m.header.toPid m.header.id) where
  reshaped := .of_same rfl rfl rfl
  wrote q := by
    show update s.currentMessageID m.header.toPid m.header.id q = _ ∨ _ ∨ _
    by_cases hq : q = m.header.toPid
    · subst hq
      exact .inr (.inr ⟨m, hm, rfl, update_self ..⟩)
    · exact .inl (update_of_ne hq ..)
  kept := List.Subset.refl _
  subscribers := id

theorem of_recieve (hr : recieveMessageWith accept s p = some (s', h)) : Mild s.currentMessageID s s' := by
  rcases recieveMessageWith_cases hr with rfl | ⟨m, hm, rfl, rfl⟩
  · exact .refl s'
  · exact .of_select hm

theorem of_polled (accept : MsgHeader → Bool) (s : State) (p : Pid) :
    Mild s.currentMessageID s (((recieveMessageWith accept s p).map Prod.fst).getD s) := by
  rcases polled_cases accept s p with heq | ⟨m, hm, rfl, heq⟩ <;> rw [heq]
  · exact .refl s
  · exact .of_select hm

end Mild

/-! ### Sections that do -/

/-- The process, the header and the rest of the call of an act that acknowledges. -/
def Act.acknowledges : Act → Option (Pid × MsgHeader × After)
  | .btAck _ p h => some (p, h, .done)
  | .btNextMsg _ p h => some (p, h, .await p)
  | .btNextMsgFiltered _ p f h => some (p, h, .awaitFiltered p f)
  | _ => none

theorem Pc.ne_receipt_of_idle {c : Pc} (hidle : c = .idle) (h : MsgHeader) (k : After) : c ≠ .receipt h k := by
  rw [hidle]
  exact Pc.noConfusion

theorem After.pc_ne_receipt (k : After) (h : MsgHeader) (k' : After) : k.pc ≠ .receipt h k' := by
  cases k <;> exact Pc.noConfusion

theorem acknowledgeMessage_reshaped (s : State) (p : Pid) (h : MsgHeader) (k : After) :
    Reshaped (fun m => m.header.id = h.id) s (acknowledgeMessage s p h k).1 := by
  unfold acknowledgeMessage
  split
  · show Reshaped _ s (acknowledge s p h.id)
    unfold acknowledge
    split <;> exact .of_eraseP (fun m hm => hasID_iff.1 hm) (Posted.refl _) rfl rfl rfl
  · exact .refl s

theorem acknowledgeMessage_carried (s : State) (p : Pid) (h : MsgHeader) (k : After) :
    (acknowledgeMessage s p h k).2.carried = none := by
  unfold acknowledgeMessage
  split
  · rfl
  · cases k <;> rfl

theorem clearMessages_reshaped (s : State) (p : Pid) :
    Reshaped (fun m => concerns p m = true) s (clearMessages s p) := by
  obtain ⟨rs, hp, -⟩ := clearQueue_spec s p
  exact .of_eraseP (fun _ hm => hm) hp rfl rfl rfl

theorem acknowledgeMessage_wrote (s : State) (p : Pid) (h : MsgHeader) (k : After) :
    Wrote s.currentMessageID s (acknowledgeMessage s p h k).1 := by
  unfold acknowledgeMessage acknowledge
  split
  · split
    · intro q
      show update s.currentMessageID p 0 q = _ ∨ update _ _ _ _ = 0 ∨ _
      by_cases hq : q = p
      · subst hq
        exact .inr (.inl (update_self ..))
      · exact .inl (update_of_ne hq ..)
    · exact (Mild.refl s).wrote
  · exact (Mild.refl s).wrote

theorem clearMessages_current (s : State) (p : Pid) :
    (clearMessages s p).currentMessageID = s.currentMessageID := by
  obtain ⟨rs, hp, -⟩ := clearQueue_spec s p
  exact hp.currentMessageID

theorem enter_acknowledges
    (ha : a.acknowledges = some (p, h, k)) : enter s a = some (acknowledgeMessage s p h k) := by
  cases a <;> cases ha <;> rfl

/-! ### What calls do -/

/-- **A call that begins** and neither acknowledges nor clears. -/
theorem enter_mild (h : enter s a = some (s', k)) (hack : a.acknowledges = none)
    (hclear : ∀ t p, a ≠ .clearMessages t p) :
    Mild (bornAfter s.currentMessageID a) s s' ∧ Turn s .idle k ∧ ∀ hd r, k ≠ .receipt hd r := by
  cases a with
  | send t hd c =>
    cases h
    exact ⟨.refl s, .called hd c, by simp⟩
  | btSend t p hd b =>
    simp only [enter] at h
    split at h
    · cases h
    · split at h
      · cases h
        exact ⟨.refl s, .free _ _ rfl, by simp⟩
      · cases h
        exact ⟨.refl s, .called _ _, by simp⟩
  | btRecv t p block | btRecvFiltered t p f block =>
    simp only [enter] at h
    split at h
    · cases h
      exact ⟨.refl s, .free _ _ rfl, by simp⟩
    · cases h
      exact ⟨.of_polled _ s p, .free _ _ rfl, by simp⟩
  | btSubscribe t p message =>
    cases h
    refine ⟨?_, .free _ _ rfl, by simp⟩
    unfold subscribe
    split
    · exact .refl s
    · rename_i hnot
      exact .of_same rfl rfl rfl rfl fun hn => nodup_append.2 ⟨hn, pairwise_singleton _ _,
        fun x hx y hy hxy => hnot (mem_singleton.1 hy ▸ hxy ▸ hx)⟩
  | btUnsubscribe t p message =>
    cases h
    exact ⟨.of_same rfl rfl rfl rfl fun hn => hn.erase _, .free _ _ rfl, by simp⟩
  | kernelEvent t message content =>
    cases h
    obtain ⟨rs, hp, -⟩ := postToSubscribers_spec (fun sub => sub.2 == message) message
      content.length (.bytes content) s.subscribers s
    exact ⟨.of_posted hp, .free _ _ rfl, by simp⟩
  | btContent t p hd | newProcess t p cid | setStatus t p st =>
    cases h
    exact ⟨.of_same rfl rfl rfl rfl id, .free _ _ rfl, by simp⟩
  | clearMessages t p => exact absurd rfl (hclear t p)
  | btNextMsg | btNextMsgFiltered | btAck => cases hack
  | abort t | go t => cases h

/-- **Every call begins with a turn of its thread**, and at most reshapes the queue and writes to the field. -/
theorem enter_cases (h : enter s a = some (s', k)) :
    Reshaped a.takes s s' ∧ Turn s .idle k ∧ Wrote (bornAfter s.currentMessageID a) s s' := by
  cases hack : a.acknowledges with
  | some phk =>
    obtain ⟨p, hd, r⟩ := phk
    rw [enter_acknowledges hack] at h
    obtain ⟨rfl, rfl⟩ := Prod.mk.inj (Option.some.inj h)
    have hre := acknowledgeMessage_reshaped s p hd r
    have hwrote := acknowledgeMessage_wrote s p hd r
    refine ⟨?_, .free _ _ (acknowledgeMessage_carried _ _ _ _), ?_⟩ <;> cases a <;> cases hack <;> assumption
  | none =>
    by_cases hclear : ∃ t p, a = .clearMessages t p
    · obtain ⟨t, p, rfl⟩ := hclear
      cases h
      exact ⟨clearMessages_reshaped s p, .free _ _ rfl, fun q => .inl (by rw [clearMessages_current]; rfl)⟩
    · obtain ⟨hmild, hturn, -⟩ := enter_mild h hack fun t p ha => hclear ⟨t, p, ha⟩
      exact ⟨hmild.reshaped.mono fun _ => False.elim, hturn, hmild.wrote⟩

theorem advance_cases (h : advance s k = some (s', k', new)) :
    (Mild s.currentMessageID s s' ∧ Turn s k k' ∧ new = [] ∧ ∀ hd r, k' ≠ .receipt hd r) ∨
    (∃ msg, k = .sendNumber msg ∧ s' = (nextID s).1 ∧ k' = .sendAdd (msg.withID (nextID s).2) ∧
      new = []) ∨ (∃ msg, k = .sendAdd msg ∧ k' = .idle ∧ addMessage s msg = some s' ∧
      new = if s.status msg.header.toPid ≠ .doesNotExist then [msg] else []) := by
  cases k with
  | idle => cases h
  | sendCheck msg =>
    simp only [advance] at h
    split at h
    · cases h
      exact .inl ⟨.refl s, .free _ _ rfl, rfl, by simp⟩
    · split at h
      · rename_i hreply
        cases h
        exact .inl ⟨.refl s, .reply _ hreply, rfl, by simp⟩
      · rename_i hreply
        cases h
        exact .inl ⟨.refl s, .plain _ (Bool.not_eq_true _ ▸ hreply), rfl, by simp⟩
  | sendReply msg =>
    simp only [advance] at h
    split at h
    · cases h
      exact .inl ⟨.refl s, .free _ _ rfl, rfl, by simp⟩
    · rename_i hok
      rw [markReplied_eq] at h
      cases h
      exact .inl ⟨.refl s, .allowed _ (Bool.not_eq_true _ ▸ hok), rfl, by simp⟩
  | sendNumber msg =>
    cases h
    exact .inr (.inl ⟨msg, rfl, rfl, rfl, rfl⟩)
  | sendAdd msg =>
    simp only [advance] at h
    split at h
    · cases h
      exact .inl ⟨.refl s, .blocks _, rfl, by simp⟩
    · rename_i hadd
      cases h
      exact .inr (.inr ⟨msg, rfl, rfl, hadd, rfl⟩)
  | sendBlocked msg =>
    simp only [advance] at h
    split at h
    · cases h
    · cases h
      exact .inl ⟨.refl s, .wakes _, rfl, by simp⟩
  | receipt hd k =>
    cases h
    obtain ⟨rs, hp, -⟩ := postToSubscribers_spec (wantsReceipt hd)
      KernelMessage.messageReceipt headerSize (.header { hd with length := 0 }) s.subscribers s
    exact .inl ⟨.of_posted hp, .free _ _ (by cases k <;> rfl), rfl, k.pc_ne_receipt⟩
  | await p =>
    obtain ⟨r, hr, heq⟩ := map_eq_some_iff.1 h
    cases heq
    exact .inl ⟨.of_recieve hr, .free _ _ rfl, rfl, by simp⟩
  | awaitCurrent p f =>
    simp only [advance] at h
    split at h <;> cases h <;> exact .inl ⟨.refl s, .free _ _ rfl, rfl, by simp⟩
  | awaitFiltered p f =>
    simp only [advance] at h
    split at h
    · cases h
      exact .inl ⟨.refl s, .free _ _ rfl, rfl, by simp⟩
    · cases h

/-- **The kinds of steps**: a section of a running call, an aborted wait, and the beginning of a call. -/
theorem step_inv (h : step w a = some w') :
    (∃ t s' k new, a = .go t ∧ advance w.mgr (w.pc t) = some (s', k, new) ∧
      w' = ⟨s', update w.pc t k, w.accepted ++ new⟩) ∨
    (∃ t, a = .abort t ∧ (w.pc t).abortable = true ∧ w' = { w with pc := update w.pc t .idle }) ∨
    (w.pc a.thread = .idle ∧ ∃ s' k, enter w.mgr a = some (s', k) ∧
      w' = { w with mgr := s', pc := update w.pc a.thread k }) := by
  cases a with
  | go t =>
    obtain ⟨⟨s', k, new⟩, hr, rfl⟩ := map_eq_some_iff.1 h
    exact .inl ⟨t, s', k, new, rfl, hr, rfl⟩
  | abort t =>
    simp only [step] at h
    split at h
    · rename_i hab
      cases h
      exact .inr (.inl ⟨t, rfl, hab, rfl⟩)
    · cases h
  | send | btSend | btRecv | btRecvFiltered | btNextMsg | btNextMsgFiltered | btContent | btAck
  | btSubscribe | btUnsubscribe | kernelEvent | clearMessages | newProcess | setStatus =>
    simp only [step] at h
    split at h
    · rename_i hidle
      obtain ⟨⟨s', k⟩, hr, rfl⟩ := map_eq_some_iff.1 h
      exact .inr (.inr ⟨hidle, s', k, hr, rfl⟩)
    · cases h

/-- **What a step can do.**  The acting thread moves to `k'`, and with it the queue is reshaped,
or a message is numbered, or a numbered message is queued. -/
theorem step_cases (h : step w a = some w') : ∃ k', w'.pc = update w.pc a.thread k' ∧
      ((Reshaped a.takes w.mgr w'.mgr ∧ Turn w.mgr (w.pc a.thread) k' ∧ w'.accepted = w.accepted) ∨
      (∃ msg, w.pc a.thread = .sendNumber msg ∧ w'.mgr = (nextID w.mgr).1 ∧
        k' = .sendAdd (msg.withID (nextID w.mgr).2) ∧ w'.accepted = w.accepted) ∨
      (∃ msg, w.pc a.thread = .sendAdd msg ∧ k' = .idle ∧ addMessage w.mgr msg = some w'.mgr ∧
        w'.accepted = w.accepted ++
          if w.mgr.status msg.header.toPid ≠ .doesNotExist then [msg] else [])) := by
  rcases step_inv h with ⟨t, s', k, new, rfl, hr, rfl⟩ | ⟨t, rfl, -, rfl⟩ | ⟨hidle, s', k, hr, rfl⟩
  · refine ⟨k, rfl, ?_⟩
    rcases advance_cases hr with ⟨hmild, hturn, rfl, -⟩ | ⟨msg, hk, rfl, rfl, rfl⟩ | ⟨msg, hk, rfl, hadd, rfl⟩
    · exact .inl ⟨hmild.reshaped, hturn, append_nil _⟩
    · exact .inr (.inl ⟨msg, hk, rfl, rfl, append_nil _⟩)
    · exact .inr (.inr ⟨msg, hk, rfl, hadd, rfl⟩)
  · exact ⟨.idle, rfl, .inl ⟨.refl _, .free _ _ rfl, rfl⟩⟩
  · obtain ⟨hre, hturn, -⟩ := enter_cases hr
    exact ⟨k, rfl, .inl ⟨hre, by rw [hidle]; exact hturn, rfl⟩⟩

/-- What `AddMessage` has done when it does not wait. -/
theorem addMessage_some (h : addMessage s msg = some s') :
    (s' = s ∨ s' = { s with messages := s.messages ++ [msg] }) ∧
      (msg.header.fromPid ≠ 0 → msg.header.isReply = false →
        ∀ m ∈ s.messages, occupies msg.header m = false) := by
  obtain ⟨hnowait, h⟩ := ite_none_left_eq_some.1 h
  constructor
  · split at h <;> cases h
    · exact .inr rfl
    · exact .inl rfl
  · intro hfrom hreply m hm
    rw [← Bool.not_eq_true]
    intro hocc
    exact hnowait ⟨hfrom, hreply, any_eq_true.2 ⟨m, hm, hocc⟩⟩

/-- **The messages in the queue after a step** were there before, the acting thread had them in hand, or they are
new ones of the kernel. -/
theorem step_mem (h : step w a = some w') (hm : m ∈ w'.mgr.messages) : m ∈ w.mgr.messages ∨
    w.pc a.thread = .sendAdd m ∨ m.header.replied = false ∧
      (w'.mgr.issued < 2 ^ 64 → w.mgr.idCounter = w.mgr.issued → w.mgr.issued < m.header.id) := by
  obtain ⟨k', -, ⟨⟨l, rs, s1, hsub, -, hp, hms, hi, -⟩, -⟩ | ⟨msg, -, hmgr, -⟩ | ⟨msg, ht, -, hadd, -⟩⟩ :=
    step_cases h
  · rw [hms, hp.messages] at hm
    rcases mem_append.1 hm with hold | hnew
    · exact .inl (hsub.subset hold)
    · refine .inr (.inr ⟨(hp.fromKernel m hnew).2.2, ?_⟩)
      intro hb hc
      exact (hp.fresh (hi ▸ hb) hc m hnew).1
  · rw [hmgr] at hm
    exact .inl hm
  · rcases (addMessage_some hadd).1 with hmgr | hmgr <;> rw [hmgr] at hm
    · exact .inl hm
    · rcases mem_append.1 hm with hold | hnew
      · exact .inl hold
      · rw [mem_singleton.1 hnew]
        exact .inr (.inl ht)

end Btos.Kernel.Messaging
