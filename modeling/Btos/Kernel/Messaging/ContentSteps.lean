import Btos.Kernel.Messaging.Objects
import Btos.Kernel.Messaging.Queue

/-!
# What the sections of the manager do to message objects

Each act of `Btos.Kernel.Messaging.System`, written as the operations on `Message` objects that its code
performs: `SendMessage` constructs its variable first, numbers it, pushes it, and lets it go at the end;
`RemoveMessage` and `ClearMessages` erase; receipts and kernel events run a whole `SendMessage`.  The
copies that a look at a header makes are left to the `copy` operations of the next module.

* `Book` — a record of **the bytes that were passed to each `SendMessage`**, under the id it returned.
-/

namespace Btos.Kernel.Messaging

open Function Option

/-! ### The operations of an act -/

/-- `SendMessage` in a thread that holds the lock and never has to wait. -/
def sendCommands (t : ℕ) (s : State) (h : MsgHeader) (c : Content) : List Cmd :=
  let k := Key.sender t
  let msg := newMessage h c
  .construct k msg ::
    if destinationMissing s msg || msg.header.isReply && replyRefused s msg then [.destroy k]
    else .number k (nextID s).2 ::
      ((if s.status msg.header.toPid ≠ .doesNotExist then [.push k] else []) ++ [.destroy k])

def postCommands (t : ℕ) (wanted : Pid × ℕ → Bool) (type length : ℕ) (c : Content) :
    List (Pid × ℕ) → State → List Cmd
  | [], _ => []
  | sub :: subs, s =>
      if wanted sub then
        sendCommands t s (kernelHeader s sub.1 type length) c ++
          postCommands t wanted type length c subs (postKernelMessage s sub.1 type length c)
      else postCommands t wanted type length c subs s

/-- `SendMessageReciept`. -/
def receiptCommands (t : ℕ) (s : State) (h : MsgHeader) : List Cmd :=
  postCommands t (wantsReceipt h) KernelMessage.messageReceipt headerSize
    (.header { h with length := 0 }) s.subscribers s

/-- The first queued message that meets `q` is erased at its index. -/
def eraseCommands (q : Message → Bool) (l : List Message) : List Cmd :=
  match l.findIdx? q with
  | some i => [.erase i]
  | none => []

def goCommands (t : ℕ) (s : State) : Pc → List Cmd
  | .sendCheck msg => if destinationMissing s msg then [.destroy (.sender t)] else []
  | .sendReply msg => if replyRefused s msg then [.destroy (.sender t)] else []
  | .sendNumber _ => [.number (.sender t) (nextID s).2]
  | .sendAdd msg =>
      if (addMessage s msg).isSome then
        (if s.status msg.header.toPid ≠ .doesNotExist then [.push (.sender t)] else []) ++
          [.destroy (.sender t)]
      else []
  | .receipt h _ => receiptCommands t s h
  | _ => []

def commands (w : World) : Act → List Cmd
  | .send t h c => [.construct (.sender t) (newMessage h c)]
  | .btSend t p h b =>
      if h.length > msgMax then []
      else [.construct (.sender t) (newMessage (stampHeader p h) (.bytes b))]
  | .btNextMsg _ _ h | .btNextMsgFiltered _ _ _ h | .btAck _ _ h =>
      eraseCommands (Message.hasID h.id) w.mgr.messages
  | .kernelEvent t message content =>
      postCommands t (fun sub => sub.2 == message) message content.length (.bytes content)
        w.mgr.subscribers w.mgr
  | .clearMessages t p =>
      eraseCommands (concerns p) w.mgr.messages ++
        match w.mgr.messages.find? (concerns p) with
        | some msg =>
            if msg.header.toPid = p then
              receiptCommands t { w.mgr with messages := w.mgr.messages.eraseP (concerns p) }
                msg.header
            else []
        | none => []
  | .go t => goCommands t w.mgr (w.pc t)
  | _ => []

/-! ### The book -/

/-- The bytes passed to the `SendMessage` of each variable, and to the `SendMessage` that returned each
id. -/
structure Book where
  passed : Key → List ℕ
  sent : ℕ → Option (List ℕ)

def Cmd.record (L : Layout) : Cmd → Book → Book
  | .construct k msg, b => { b with passed := update b.passed k (L.bytes msg.content) }
  | .number k id, b => { b with sent := update b.sent id (some (b.passed k)) }
  | _, b => b

/-- What a list of operations writes to the book. -/
def recordAll (L : Layout) (cs : List Cmd) (b : Book) : Book := cs.foldl (fun b c => c.record L b) b

/-- The values, the book and the system agree. -/
structure Booked (L : Layout) (w : World) (s : Shelf) (b : Book) : Prop where
  tidy : Tidy w
  queue : s.queue = w.mgr.messages
  senders : ∀ t, s.vars (.sender t) = (w.pc t).carried
  passed : ∀ t msg, (w.pc t).carried = some msg → b.passed (.sender t) = L.bytes msg.content
  sent : ∀ m ∈ w.mgr.messages, b.sent m.header.id = some (L.bytes m.content)
  hands : ∀ t msg, (w.pc t).inHand = some msg → b.sent msg.header.id = some (L.bytes msg.content)
  copies : ∀ n m, s.vars (.copy n) = some m →
    m.header.id ≤ w.mgr.issued ∧ b.sent m.header.id = some (L.bytes m.content)

/-- What thread `t` has done to the values and to the book on the way from `w` to the manager `mgr`. -/
structure Moved (L : Layout) (t : ℕ) (w : World) (mgr : State) (k' : Pc) (s s' : Shelf) (b b' : Book) :
    Prop where
  queue : s'.queue = mgr.messages
  own : s'.vars (.sender t) = k'.carried
  others : ∀ k, k ≠ .sender t → s'.vars k = s.vars k ∧ b'.passed k = b.passed k
  passed : ∀ msg, k'.carried = some msg → b'.passed (.sender t) = L.bytes msg.content
  old : ∀ id, id ≤ w.mgr.issued → b'.sent id = b.sent id
  sent : ∀ m ∈ mgr.messages, m ∈ w.mgr.messages ∨ b'.sent m.header.id = some (L.bytes m.content)
  hand : ∀ msg, k'.inHand = some msg → b'.sent msg.header.id = some (L.bytes msg.content)

theorem Booked.of_moved (h : Booked L w s b) (hm : Moved L t w w'.mgr k' s s' b b') (htidy : Tidy w')
    (hpc : w'.pc = update w.pc t k') (hle : w.mgr.issued ≤ w'.mgr.issued) : Booked L w' s' b' where
  tidy := htidy
  queue := hm.queue
  senders u := by
    rw [hpc]
    by_cases hu : u = t
    · subst hu
      rw [update_self]
      exact hm.own
    · rw [update_of_ne hu, (hm.others (.sender u) (fun heq => hu (Key.sender.inj heq))).1]
      exact h.senders u
  passed u msg hmsg := by
    rw [hpc] at hmsg
    by_cases hu : u = t
    · subst hu
      rw [update_self] at hmsg
      exact hm.passed msg hmsg
    · rw [update_of_ne hu] at hmsg
      rw [(hm.others (.sender u) (fun heq => hu (Key.sender.inj heq))).2]
      exact h.passed u msg hmsg
  sent m hin := by
    rcases hm.sent m hin with hold | hnew
    · rw [hm.old _ (h.tidy.ids m hold).2]
      exact h.sent m hold
    · exact hnew
  hands u msg hmsg := by
    rw [hpc] at hmsg
    by_cases hu : u = t
    · subst hu
      rw [update_self] at hmsg
      exact hm.hand msg hmsg
    · rw [update_of_ne hu] at hmsg
      rw [hm.old _ (h.tidy.handIds u msg hmsg).2.1]
      exact h.hands u msg hmsg
  copies n m hn := by
    rw [(hm.others (.copy n) Key.noConfusion).1] at hn
    obtain ⟨hid, hsent⟩ := h.copies n m hn
    refine ⟨Nat.le_trans hid hle, ?_⟩
    rw [hm.old _ hid]
    exact hsent

/-! ### Kernel messages -/

/-- What sending kernel messages on the way from `s` to `s'` has written to the book. -/
structure Entered (L : Layout) (t : ℕ) (s s' : State) (b b' : Book) : Prop where
  passed : ∀ k, k ≠ .sender t → b'.passed k = b.passed k
  old : ∀ id, id ≤ s.issued → b'.sent id = b.sent id
  sent : ∀ m ∈ s'.messages, m ∈ s.messages ∨
    m.header.id ≤ s'.issued ∧ b'.sent m.header.id = some (L.bytes m.content)

theorem Entered.refl (L : Layout) (t : ℕ) (s : State) (b : Book) : Entered L t s s b b :=
  ⟨fun _ _ => rfl, fun _ _ => rfl, fun _ hm => .inl hm⟩

theorem Entered.trans (h₁ : Entered L t s s₁ b b₁) (h₂ : Entered L t s₁ s₂ b₁ b₂) (hle : s.issued ≤ s₁.issued)
    (hle₂ : s₁.issued ≤ s₂.issued) : Entered L t s s₂ b b₂ where
  passed k hk := (h₂.passed k hk).trans (h₁.passed k hk)
  old id hid := (h₂.old id (Nat.le_trans hid hle)).trans (h₁.old id hid)
  sent m hm := by
    rcases h₂.sent m hm with hm | hm
    · rcases h₁.sent m hm with hm | ⟨hid, hsent⟩
      · exact .inl hm
      · exact .inr ⟨Nat.le_trans hid hle₂, (h₂.old _ hid).trans hsent⟩
    · exact .inr hm

theorem update_none {vars : Key → Option Message} (h : vars k = none)
    (x : Option Message) : update (update vars k x) k none = vars := by
  rw [update_idem, ← h, update_eq_self]

section Posts

variable {L : Layout} {t : ℕ} {s : State} {sh : Shelf} {b : Book}

theorem evalAll_refused {msg : Message} (hk : sh.vars (.sender t) = none)
    (hlen : (L.bytes msg.content).length = msg.header.length) :
    evalAll L [.construct (.sender t) msg, .destroy (.sender t)] sh = some sh := by
  simp only [evalAll, Cmd.eval, hk, hlen, and_self, if_true, bind_some, update_self, map_some, update_none hk]

theorem evalAll_numbered {msg : Message} {id : ℕ} (hk : sh.vars (.sender t) = none)
    (hlen : (L.bytes msg.content).length = msg.header.length) (p : Prop) [Decidable p] :
    evalAll L (.construct (.sender t) msg :: .number (.sender t) id ::
        ((if p then [.push (.sender t)] else []) ++ [.destroy (.sender t)])) sh =
      some { sh with queue := sh.queue ++ if p then [msg.withID id] else [] } := by
  by_cases hp : p <;> simp [evalAll, Cmd.eval, hk, hlen, update_none hk, hp]

theorem sendCommands_spec (hlen : (L.bytes c).length = length)
    (hq : sh.queue = s.messages) (hk : sh.vars (.sender t) = none) (hc : s.idCounter = s.issued)
    (hb : (postKernelMessage s dest type length c).issued < 2 ^ 64) :
    evalAll L (sendCommands t s (kernelHeader s dest type length) c) sh =
        some { sh with queue := (postKernelMessage s dest type length c).messages } ∧
      Entered L t s (postKernelMessage s dest type length c) b
        (recordAll L (sendCommands t s (kernelHeader s dest type length) c) b) := by
  have hto : (newMessage (kernelHeader s dest type length) c).header.toPid = dest := rfl
  have hreply : (newMessage (kernelHeader s dest type length) c).header.isReply = false := by
    simp [newMessage, kernelHeader, MsgHeader.isReply]
  rw [postKernelMessage_eq] at hb ⊢
  by_cases hs : s.status dest = .doesNotExist ∧ dest ≠ 0
  · rw [if_pos hs] at hb ⊢
    have hcmds : sendCommands t s (kernelHeader s dest type length) c =
        [.construct (.sender t) (newMessage (kernelHeader s dest type length) c), .destroy (.sender t)] := by
      simp [sendCommands, destinationMissing, hto, hs]
    rw [hcmds, evalAll_refused hk hlen, ← hq]
    refine ⟨rfl, ?_, fun _ _ => rfl, fun m hm => .inl hm⟩
    intro k hne
    exact update_of_ne hne ..
  · rw [if_neg hs] at hb ⊢
    have hcmds : sendCommands t s (kernelHeader s dest type length) c =
        .construct (.sender t) (newMessage (kernelHeader s dest type length) c) ::
          .number (.sender t) (nextID s).2 :: ((if s.status dest ≠ .doesNotExist then
            [.push (.sender t)] else []) ++ [.destroy (.sender t)]) := by
      have hdest : destinationMissing s (newMessage (kernelHeader s dest type length) c) = false := by
        simpa [destinationMissing, hto, and_comm] using hs
      simp [sendCommands, hdest, hreply, hto]
    have hid : (nextID s).2 = s.issued + 1 := (nextID_posted s).counter hb hc
    rw [hcmds]
    refine ⟨?_, ?_, ?_, ?_⟩
    · rw [evalAll_numbered hk hlen, hq]
      rfl
    · -- what was passed and sent before stays, also where the message is dropped or pushed at the end
      intro k hne
      split <;> exact update_of_ne hne ..
    · intro id hle
      have hne : id ≠ (nextID s).2 := by omega
      split <;> exact update_of_ne hne ..
    · intro m hm
      rcases List.mem_append.1 hm with hm | hm
      · exact .inl hm
      split at hm
      · rename_i hex
        rw [List.mem_singleton.1 hm]
        refine .inr ⟨Nat.le_of_eq hid, ?_⟩
        rw [if_pos hex]
        show update b.sent (nextID s).2 (some (update b.passed _ _ _)) (nextID s).2 = _
        rw [update_self, update_self]
        rfl
      · cases hm

theorem recordAll_append (cs ds : List Cmd) (b : Book) :
    recordAll L (cs ++ ds) b = recordAll L ds (recordAll L cs b) := List.foldl_append

/-- **Kernel messages to subscribers.** -/
theorem postCommands_spec (wanted : Pid × ℕ → Bool) (type : ℕ)
    (hlen : (L.bytes c).length = length) (subs : List (Pid × ℕ)) :
    ∀ (s : State) (sh : Shelf) (b : Book), sh.queue = s.messages → sh.vars (.sender t) = none →
      s.idCounter = s.issued → (postToSubscribers wanted type length c subs s).issued < 2 ^ 64 →
      evalAll L (postCommands t wanted type length c subs s) sh =
          some { sh with queue := (postToSubscribers wanted type length c subs s).messages } ∧
        Entered L t s (postToSubscribers wanted type length c subs s) b
          (recordAll L (postCommands t wanted type length c subs s) b) := by
  induction subs with
  | nil =>
    intro s sh b hq _ _ _
    refine ⟨?_, Entered.refl L t s b⟩
    show some sh = some { sh with queue := s.messages }
    rw [← hq]
  | cons sub subs ih =>
    intro s sh b hq hk hc hb
    simp only [postToSubscribers, List.foldl_cons] at hb ⊢
    by_cases hw : wanted sub = true
    · rw [if_pos hw] at hb ⊢
      rw [postCommands, if_pos hw]
      obtain ⟨rs, hp, -⟩ := postKernelMessage_spec s sub.1 type length c
      obtain ⟨rs', hp', -⟩ := postToSubscribers_spec wanted type length c subs
        (postKernelMessage s sub.1 type length c)
      have hb1 := Nat.lt_of_le_of_lt hp'.issued_le hb
      obtain ⟨heval, hent⟩ := sendCommands_spec hlen hq hk hc hb1
      obtain ⟨heval', hent'⟩ := ih (postKernelMessage s sub.1 type length c)
        { sh with queue := (postKernelMessage s sub.1 type length c).messages }
        (recordAll L (sendCommands t s (kernelHeader s sub.1 type length) c) b) rfl hk
        (hp.counter hb1 hc) hb
      refine ⟨?_, ?_⟩
      · rw [evalAll_append, heval]
        exact heval'
      · rw [recordAll_append]
        exact hent.trans hent' hp.issued_le hp'.issued_le
    · rw [if_neg hw] at hb ⊢
      rw [postCommands, if_neg hw]
      exact ih s sh b hq hk hc hb

end Posts

end Btos.Kernel.Messaging
