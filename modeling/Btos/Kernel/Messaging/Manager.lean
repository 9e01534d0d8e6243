import Btos.Lib.Word

/-!
# The message manager: its data and its critical sections

`kernel/messaging.cpp`.  One `MessageManager` keeps the queue of all messages, the counter of
message ids and the list of subscriptions to kernel messages, all behind `messageLock`.  Each
function below is what one method does **while it holds that lock**; which sections of different
threads come between each other is the matter of `Btos.Kernel.Messaging.System`.

* `Posted` is **the one statement about kernel messages**: they are appended behind the queue,
  under fresh ids, from process 0, and touch nothing else.

The queue order is the order of the C++ vector.  Of `bt_msg_header` the pointer `content` is left
out; the bytes it points to are the `content` of the queued `Message`.
-/

namespace Btos.Kernel.Messaging

open Lib.Word List

/-- Process ids (`bt_pid_t`); 0 is the kernel. -/
abbrev Pid := ℕ

/-- `bt_msg_header`. -/
structure MsgHeader where
  valid : Bool
  id : ℕ
  replyId : ℕ
  flags : ℕ
  source : ℕ
  fromPid : Pid
  toPid : Pid
  type : ℕ
  length : ℕ
  critical : Bool
  recieved : Bool
  replied : Bool
  deriving DecidableEq, Repr

/-- The flags of a header (`bt_msg_flags`). -/
def MsgFlag.userSpace : ℕ := 1

def MsgFlag.reply : ℕ := 2

/-- `bt_kernel_messages`; a subscription may name any number, so this is a number too. -/
def KernelMessage.messageReceipt : ℕ := 3

/-- `BT_MSG_MAX`, the longest content a user process may send. -/
def msgMax : ℕ := 4096

/-- `sizeof(bt_msg_header)`. -/
def headerSize : ℕ := 60

/-- The header carries the `Reply` flag. -/
def MsgHeader.isReply (h : MsgHeader) : Bool := h.flags &&& MsgFlag.reply != 0

/-- What a message carries: the bytes its sender passed, or a header copied by the kernel. -/
inductive Content where
  | bytes (b : List ℕ)
  | header (h : MsgHeader)
  deriving DecidableEq, Repr

def Content.isEmpty : Content → Bool
  | .bytes b => b.isEmpty
  | .header _ => false

structure Message where
  header : MsgHeader
  content : Content
  deriving DecidableEq, Repr

/-- `bt_proc_status`. -/
inductive ProcStatus where
  | doesNotExist | running | ending | starting | held
  deriving DecidableEq, Repr

/-- The manager and what it reads of the processes.  `replyIdJunk` is what an uninitialised
`reply_id` of a kernel message holds, and `issued` counts the ids ever handed out (it is only
recorded, nothing reads it). -/
structure State where
  messages : List Message
  idCounter : ℕ
  subscribers : List (Pid × ℕ)
  status : Pid → ProcStatus
  currentMessageID : Pid → ℕ
  replyIdJunk : ℕ
  issued : ℕ

/-! ### Looking up, numbering, adding and removing -/

def Message.hasID (id : ℕ) (m : Message) : Bool := m.header.id == id

/-- `GetMessage`: the first queued message with that id. -/
def getMessage (s : State) (id : ℕ) : Option Message := s.messages.find? (Message.hasID id)

def haveMessage (s : State) (id : ℕ) : Bool := s.messages.any (Message.hasID id)

/-- `NextID`: the counter is incremented and returned. -/
def nextID (s : State) : State × ℕ :=
  ({ s with idCounter := add64 s.idCounter 1, issued := s.issued + 1 }, add64 s.idCounter 1)

/-- A queued non-reply `m` occupies the slot of sender and destination that `h` needs. -/
def occupies (h : MsgHeader) (m : Message) : Bool :=
  !m.header.isReply && m.header.fromPid == h.fromPid && m.header.toPid == h.toPid

/-- `AddMessage`, one turn of its loop: `none` is `wait`; otherwise the message is pushed, or
dropped when its destination has gone. -/
def addMessage (s : State) (msg : Message) : Option State :=
  if msg.header.fromPid ≠ 0 ∧ msg.header.isReply = false ∧ s.messages.any (occupies msg.header) = true then
    none
  else if s.status msg.header.toPid ≠ .doesNotExist then
    some { s with messages := s.messages ++ [msg] }
  else
    some s

def removeMessage (s : State) (id : ℕ) : State :=
  { s with messages := s.messages.eraseP (Message.hasID id) }

/-! ### Sending -/

/-- The head of `SendMessage`: the three marks are set and the content is copied. -/
def newMessage (h : MsgHeader) (c : Content) : Message :=
  ⟨{ h with valid := true, recieved := false, replied := false }, c⟩

/-- The message is for a process that does not exist. -/
def destinationMissing (s : State) (msg : Message) : Bool :=
  msg.header.toPid != 0 && s.status msg.header.toPid == .doesNotExist

/-- The checks on a reply: the answered message must be queued, have come the other way, and
not be marked as replied. -/
def replyRefused (s : State) (msg : Message) : Bool :=
  match getMessage s msg.header.replyId with
  | none => true
  | some prev =>
      prev.header.toPid != msg.header.fromPid || prev.header.fromPid != msg.header.toPid || prev.header.replied

/-- The block after the checks.  `GetMessage` looks under the *sender's pid* and fills `omsg`, a
local copy, so the mark that is set on it is lost with it. -/
def markReplied (s : State) (msg : Message) : State :=
  match getMessage s msg.header.fromPid with
  | some omsg =>
      let _omsg : Message := { omsg with header := { omsg.header with replied := true } }
      s
  | none => s

def Message.withID (msg : Message) (id : ℕ) : Message :=
  { msg with header := { msg.header with id := id } }

/-- `SendMessage` by a caller that holds `messageLock`: the state and the id that is returned,
0 for a refusal; `none` if `AddMessage` would have to wait. -/
def sendMessage (s : State) (h : MsgHeader) (c : Content) : Option (State × ℕ) :=
  let msg := newMessage h c
  if destinationMissing s msg then some (s, 0)
  else if msg.header.isReply && replyRefused s msg then some (s, 0)
  else
    let s := if msg.header.isReply then markReplied s msg else s
    let (s, id) := nextID s
    (addMessage s (msg.withID id)).map fun s => (s, id)

/-- The header that the kernel fills in for a message of its own; `reply_id` keeps whatever was
on the stack. -/
def kernelHeader (s : State) (dest : Pid) (type length : ℕ) : MsgHeader :=
  { valid := false, id := 0, replyId := s.replyIdJunk, flags := 0, source := 0, fromPid := 0,
    toPid := dest, type := type, length := length, critical := false, recieved := false,
    replied := false }

/-- One kernel message is sent; a message from process 0 never has to wait. -/
def postKernelMessage (s : State) (dest : Pid) (type length : ℕ) (c : Content) : State :=
  match sendMessage s (kernelHeader s dest type length) c with
  | some (s', _) => s'
  | none => s

/-- The loop over `subscribers` that `SendMessageReciept` and `SendKernelEvent` share. -/
def postToSubscribers (wanted : Pid × ℕ → Bool) (type length : ℕ) (c : Content)
    (subs : List (Pid × ℕ)) (s : State) : State :=
  subs.foldl (fun s sub => if wanted sub then postKernelMessage s sub.1 type length c else s) s

/-- The subscriptions that get a receipt for a message with header `h`: the receipts of the
process in its `from` field. -/
def wantsReceipt (h : MsgHeader) (sub : Pid × ℕ) : Bool :=
  sub.1 == h.fromPid && sub.2 == KernelMessage.messageReceipt

/-- `SendMessageReciept`: the content is the header, with its own content cut off. -/
def sendMessageReciept (s : State) (h : MsgHeader) : State :=
  postToSubscribers (wantsReceipt h) KernelMessage.messageReceipt headerSize
    (.header { h with length := 0 }) s.subscribers s

def sendKernelEvent (s : State) (message : ℕ) (content : List ℕ) : State :=
  postToSubscribers (fun sub => sub.2 == message) message content.length (.bytes content)
    s.subscribers s

/-! ### Receiving and acknowledging -/

/-- `bt_msg_filter`. -/
structure MsgFilter where
  flags : ℕ
  pid : Pid
  replyTo : ℕ
  type : ℕ
  source : ℕ
  deriving DecidableEq, Repr

/-- A bit of `bt_msg_filter_flags` is set in the filter. -/
def MsgFilter.has (f : MsgFilter) (bit : ℕ) : Bool := f.flags &&& bit != 0

/-- `DoesMessageMatch`; the bits are `From`, `Reply`, `Type`, `Source`, `NonReply`, `Invert`. -/
def doesMessageMatch (h : MsgHeader) (f : MsgFilter) : Bool :=
  if h.critical then true
  else
    let ret := !(f.has (1 <<< 4) && h.isReply) && !(f.has (1 <<< 0) && h.fromPid != f.pid) &&
      !(f.has (1 <<< 1) && h.replyId != f.replyTo) &&
      !(f.has (1 <<< 2) && h.type != f.type) &&
      !(f.has (1 <<< 3) && h.source != f.source)
    if f.has (1 <<< 31) then !ret else ret

def setCurrentMessageID (s : State) (p : Pid) (id : ℕ) : State :=
  { s with currentMessageID := Function.update s.currentMessageID p id }

/-- `RecieveMessage` in both forms: `accept` is the filter, or always true. -/
def recieveMessageWith (accept : MsgHeader → Bool) (s : State) (p : Pid) :
    Option (State × MsgHeader) :=
  match (getMessage s (s.currentMessageID p)).filter fun m => accept m.header with
  | some cmsg => some (s, cmsg.header)
  | none =>
      (s.messages.find? fun m => m.header.toPid == p && accept m.header).map fun m =>
        (setCurrentMessageID s p m.header.id, m.header)

def recieveMessage (s : State) (p : Pid) : Option (State × MsgHeader) := recieveMessageWith (fun _ => true) s p

/-- `RecieveMessage(msg, filter, proc)`. -/
def recieveMessageFiltered (f : MsgFilter) (s : State) (p : Pid) : Option (State × MsgHeader) :=
  recieveMessageWith (fun h => doesMessageMatch h f) s p

/-- The first section of `AcknowledgeMessage`, for a message that is queued. -/
def acknowledge (s : State) (p : Pid) (id : ℕ) : State :=
  removeMessage (if s.currentMessageID p = id then setCurrentMessageID s p 0 else s) id

/-- `MessageContent`: what is read under an id, nothing if there is no such message. -/
def messageContent (s : State) (id : ℕ) : Content :=
  match getMessage s id with
  | some m => m.content
  | none => .bytes []

def subscribe (s : State) (p : Pid) (message : ℕ) : State :=
  if (p, message) ∈ s.subscribers then s
  else { s with subscribers := s.subscribers ++ [(p, message)] }

def unSubscribe (s : State) (p : Pid) (message : ℕ) : State :=
  { s with subscribers := s.subscribers.erase (p, message) }

/-! ### Lookups -/

@[simp] theorem hasID_iff {id : ℕ} : Message.hasID id m = true ↔ m.header.id = id := by
  simp [Message.hasID]

theorem getMessage_some {id : ℕ} (h : getMessage s id = some m) : m ∈ s.messages ∧ m.header.id = id :=
  ⟨mem_of_find?_eq_some h, hasID_iff.1 (find?_some h)⟩

theorem haveMessage_eq_isSome (s : State) (id : ℕ) : haveMessage s id = (getMessage s id).isSome := by
  rw [haveMessage, getMessage, Bool.eq_iff_iff, any_eq_true, find?_isSome]

/-- What `RecieveMessage` does to the manager: nothing, or it writes the id of a queued message for the
process to the field. -/
theorem recieveMessageWith_cases (hr : recieveMessageWith accept s p = some (s', h)) :
    s' = s ∨ ∃ m ∈ s.messages, m.header.toPid = p ∧ s' = setCurrentMessageID s p m.header.id := by
  unfold recieveMessageWith at hr
  split at hr
  · cases hr
    exact .inl rfl
  · obtain ⟨m, hm, heq⟩ := Option.map_eq_some_iff.1 hr
    cases heq
    have hp := find?_some hm
    simp only [Bool.and_eq_true, beq_iff_eq] at hp
    exact .inr ⟨m, mem_of_find?_eq_some hm, hp.1, rfl⟩

theorem polled_cases (accept : MsgHeader → Bool) (s : State) (p : Pid) :
    ((recieveMessageWith accept s p).map Prod.fst).getD s = s ∨ ∃ m ∈ s.messages, m.header.toPid = p ∧
        ((recieveMessageWith accept s p).map Prod.fst).getD s = setCurrentMessageID s p m.header.id := by
  cases h : recieveMessageWith accept s p with
  | none => exact .inl rfl
  | some r => exact recieveMessageWith_cases h

theorem polled_messages (accept : MsgHeader → Bool) (s : State) (p : Pid) :
    (((recieveMessageWith accept s p).map Prod.fst).getD s).messages = s.messages := by
  rcases polled_cases accept s p with heq | ⟨m, -, -, heq⟩ <;> rw [heq]
  rfl

@[simp] theorem markReplied_eq (s : State) (msg : Message) : markReplied s msg = s := by
  unfold markReplied
  split <;> rfl

/-! ### What kernel messages do to the manager -/

def kernelMessage (s : State) (dest : Pid) (type length : ℕ) (c : Content) : Message :=
  (newMessage (kernelHeader s dest type length) c).withID (nextID s).2

/-- Sending one kernel message: refused, numbered and queued, or (process 0 gone) numbered only. -/
theorem postKernelMessage_eq (s : State) (dest : Pid) (type length : ℕ) (c : Content) :
    postKernelMessage s dest type length c =
      if s.status dest = .doesNotExist ∧ dest ≠ 0 then s
      else { (nextID s).1 with messages := s.messages ++
        (if s.status dest ≠ .doesNotExist then [kernelMessage s dest type length c] else []) } := by
  by_cases h0 : dest = 0
  · subst h0
    by_cases hs : s.status 0 = .doesNotExist <;>
      simp [postKernelMessage, sendMessage, destinationMissing, addMessage, kernelMessage, nextID,
        newMessage, kernelHeader, Message.withID, MsgHeader.isReply, hs]
  · by_cases hs : s.status dest = .doesNotExist <;>
      simp [postKernelMessage, sendMessage, destinationMissing, addMessage, kernelMessage, nextID,
        newMessage, kernelHeader, Message.withID, MsgHeader.isReply, hs, h0]

/-- `s'` is `s` with the kernel messages `rs` queued behind it. -/
structure Posted (s s' : State) (rs : List Message) : Prop where
  messages : s'.messages = s.messages ++ rs
  subscribers : s'.subscribers = s.subscribers
  status : s'.status = s.status
  currentMessageID : s'.currentMessageID = s.currentMessageID
  issued_le : s.issued ≤ s'.issued
  counter : s'.issued < 2 ^ 64 → s.idCounter = s.issued → s'.idCounter = s'.issued
  fresh : s'.issued < 2 ^ 64 → s.idCounter = s.issued →
    ∀ m ∈ rs, s.issued < m.header.id ∧ m.header.id ≤ s'.issued
  distinct : s'.issued < 2 ^ 64 → s.idCounter = s.issued → (rs.map fun m => m.header.id).Nodup
  fromKernel : ∀ m ∈ rs, m.header.fromPid = 0 ∧ m.header.flags = 0 ∧ m.header.replied = false

theorem Posted.refl (s : State) : Posted s s [] where
  messages := (append_nil _).symm
  subscribers := rfl
  status := rfl
  currentMessageID := rfl
  issued_le := Nat.le_refl _
  counter _ h := h
  fresh _ _ _ hm := absurd hm not_mem_nil
  distinct _ _ := nodup_nil
  fromKernel _ hm := absurd hm not_mem_nil

theorem Posted.trans (h : Posted s s' rs) (h' : Posted s' s'' rs') : Posted s s'' (rs ++ rs') where
  messages := by rw [h'.messages, h.messages, append_assoc]
  subscribers := h'.subscribers.trans h.subscribers
  status := h'.status.trans h.status
  currentMessageID := h'.currentMessageID.trans h.currentMessageID
  issued_le := Nat.le_trans h.issued_le h'.issued_le
  counter hb hc := h'.counter hb (h.counter (Nat.lt_of_le_of_lt h'.issued_le hb) hc)
  fresh hb hc m hm := by
    have hb' : s'.issued < 2 ^ 64 := Nat.lt_of_le_of_lt h'.issued_le hb
    rcases mem_append.1 hm with hm | hm
    · have := h.fresh hb' hc m hm
      exact ⟨this.1, Nat.le_trans this.2 h'.issued_le⟩
    · have := h'.fresh hb (h.counter hb' hc) m hm
      exact ⟨Nat.lt_of_le_of_lt h.issued_le this.1, this.2⟩
  distinct hb hc := by
    have hb' : s'.issued < 2 ^ 64 := Nat.lt_of_le_of_lt h'.issued_le hb
    have hc' := h.counter hb' hc
    rw [map_append, nodup_append]
    refine ⟨h.distinct hb' hc, h'.distinct hb hc', ?_⟩
    -- the ids of the first part are at most `s'.issued`, those of the second part above it
    intro a ha b hb2 hab
    obtain ⟨m, hm, rfl⟩ := mem_map.1 ha
    obtain ⟨m', hm', rfl⟩ := mem_map.1 hb2
    have h1 := (h.fresh hb' hc m hm).2
    have h2 := (h'.fresh hb hc' m' hm').1
    omega
  fromKernel m hm := by
    rcases mem_append.1 hm with hm | hm
    · exact h.fromKernel m hm
    · exact h'.fromKernel m hm

def Message.address (m : Message) : Pid × ℕ × Content := (m.header.toPid, m.header.type, m.content)

theorem nextID_posted (s : State) : Posted s (nextID s).1 [] := by
  refine { Posted.refl s with
    messages := (append_nil _).symm
    issued_le := Nat.le_succ _
    counter := ?_
    fresh := by simp
    distinct := fun _ _ => nodup_nil }
  intro hb hc
  show add64 s.idCounter 1 = s.issued + 1
  rw [hc]
  exact add64_of_lt hb

theorem postKernelMessage_spec (s : State) (dest : Pid) (type length : ℕ) (c : Content) :
    ∃ rs, Posted s (postKernelMessage s dest type length c) rs ∧ rs.map Message.address =
        if s.status dest = .doesNotExist then [] else [(dest, type, c)] := by
  rw [postKernelMessage_eq]
  split
  · rename_i hs
    exact ⟨[], .refl s, by rw [if_pos hs.1]; rfl⟩
  · have hn := nextID_posted s
    have hmem : ∀ m ∈ if s.status dest ≠ .doesNotExist then [kernelMessage s dest type length c] else [],
        m = kernelMessage s dest type length c := by split <;> simp
    refine ⟨_, { hn with messages := rfl, fresh := ?_, distinct := ?_, fromKernel := ?_ }, ?_⟩
    · intro hb hc m hm
      have hid : (kernelMessage s dest type length c).header.id = s.issued + 1 := hn.counter hb hc
      rw [hmem m hm, hid]
      exact ⟨Nat.lt_succ_self _, Nat.le_refl _⟩
    · intro _ _
      split <;> simp
    · intro m hm
      rw [hmem m hm]
      exact ⟨rfl, rfl, rfl⟩
    · rw [ite_not]
      split <;> rfl

/-- **Kernel messages to subscribers.**  Each wanted subscription whose process exists gets one,
in the order of the subscriptions. -/
theorem postToSubscribers_spec (wanted : Pid × ℕ → Bool) (type length : ℕ) (c : Content)
    (subs : List (Pid × ℕ)) (s : State) : ∃ rs, Posted s (postToSubscribers wanted type length c subs s) rs ∧
      rs.map Message.address = (subs.filter fun sub => wanted sub && s.status sub.1 != .doesNotExist).map
          fun sub => (sub.1, type, c) := by
  induction subs generalizing s with
  | nil => exact ⟨[], Posted.refl s, rfl⟩
  | cons sub subs ih =>
    simp only [postToSubscribers, foldl_cons]
    by_cases hw : wanted sub = true
    · rw [if_pos hw]
      obtain ⟨rs, hp, ha⟩ := postKernelMessage_spec s sub.1 type length c
      obtain ⟨rs', hp', ha'⟩ := ih (postKernelMessage s sub.1 type length c)
      refine ⟨rs ++ rs', hp.trans hp', ?_⟩
      rw [map_append, ha, ha', hp.status]
      by_cases hs : s.status sub.1 = .doesNotExist <;> simp [hw, hs]
    · rw [if_neg hw]
      obtain ⟨rs', hp', ha'⟩ := ih s
      refine ⟨rs', hp', ?_⟩
      rw [ha']
      simp [hw]

end Btos.Kernel.Messaging
