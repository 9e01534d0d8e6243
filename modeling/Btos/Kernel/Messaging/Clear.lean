import Btos.Kernel.Messaging.Manager
import Btos.Lib.Lists

/-!
# `ClearMessages`: what a process that ends leaves in the manager

When a process ends, `ClearMessages` is to take every message to or from it out of the queue, and
every subscription of it out of the list.  Its two loops are written `do { for … } while(found)`
with `found = false` between the `for` and the test, so **each makes one pass and removes one
entry**; and the receipt it sends for a removed message goes to the queue that is being cleared.

* `cleared_iff` — **it does its work exactly if** there is at most one message and at most one
  subscription to remove, and the receipt (if one is due) is not itself to or from the process.
-/

namespace Btos.Kernel.Messaging

open Lib.Lists List Bool KernelMessage

/-- The message is to or from process `p`. -/
def concerns (p : Pid) (m : Message) : Bool := m.header.toPid == p || m.header.fromPid == p

/-- The first `do … while(found)`: `found` is false at the test, so the body runs once. -/
def clearQueue (s : State) (p : Pid) : State :=
  match s.messages.find? (concerns p) with
  | none => s
  | some msg =>
      let s := { s with messages := s.messages.eraseP (concerns p) }
      if msg.header.toPid = p then sendMessageReciept s msg.header else s

/-- The second `do … while(found)`, again one pass. -/
def clearSubscriptions (s : State) (p : Pid) : State :=
  { s with subscribers := s.subscribers.eraseP fun sub => sub.1 == p }

def clearMessages (s : State) (p : Pid) : State := clearSubscriptions (clearQueue s p) p

/-! ### What it is for -/

/-- `r` is the receipt for `m`: from the kernel, to the sender of `m`, with the header of `m`. -/
def IsReceiptFor (m r : Message) : Prop :=
  r.header.fromPid = 0 ∧ r.address = (m.header.fromPid, messageReceipt, .header { m.header with length := 0 })

/-- Process `p` is gone from the manager: nothing queued is to or from it and it has no
subscription, while the rest is as it was, receipts for messages to `p` apart. -/
structure Cleared (s s' : State) (p : Pid) : Prop where
  queue : ∀ m ∈ s'.messages, concerns p m = false
  subscriptions : ∀ sub ∈ s'.subscribers, sub.1 ≠ p
  kept : ∃ rs, s'.messages.filter (fun m => !concerns p m) = s.messages.filter (fun m => !concerns p m) ++ rs ∧
    ∀ r ∈ rs, ∃ m ∈ s.messages, m.header.toPid = p ∧ IsReceiptFor m r
  others : s'.subscribers.filter (fun sub => !(sub.1 == p)) = s.subscribers.filter fun sub => !(sub.1 == p)

/-- A receipt for `m` would be queued: its sender subscribed to receipts and still exists. -/
def ReceiptDue (s : State) (m : Message) : Prop :=
  (m.header.fromPid, messageReceipt) ∈ s.subscribers ∧ s.status m.header.fromPid ≠ .doesNotExist

/-! ### What the first loop does -/

/-- The receipts for `m`: none unless one is due, then at least one. -/
theorem sendMessageReciept_spec (s : State) (m : Message) : ∃ rs, Posted s (sendMessageReciept s m.header) rs ∧
      (∀ r ∈ rs, IsReceiptFor m r ∧ ReceiptDue s m) ∧ (ReceiptDue s m → ∃ r, r ∈ rs) := by
  obtain ⟨rs, hp, ha⟩ := postToSubscribers_spec (wantsReceipt m.header)
    messageReceipt headerSize (.header { m.header with length := 0 }) s.subscribers s
  refine ⟨rs, hp, ?_, ?_⟩
  · intro r hr
    have hmem := mem_map_of_mem (f := Message.address) hr
    rw [ha] at hmem
    obtain ⟨sub, hsub, heq⟩ := mem_map.1 hmem
    simp only [mem_filter, wantsReceipt, and_eq_true, beq_iff_eq, bne_iff_ne] at hsub
    obtain ⟨hin, ⟨hfrom, htype⟩, hstat⟩ := hsub
    rw [hfrom] at heq hstat
    refine ⟨⟨(hp.fromKernel r hr).1, heq.symm⟩, ?_, hstat⟩
    rw [← hfrom, ← htype]
    exact hin
  · rintro ⟨hsub, hstat⟩
    have hmem : (m.header.fromPid, messageReceipt) ∈ s.subscribers.filter
        fun sub => wantsReceipt m.header sub && s.status sub.1 != .doesNotExist := by
      simp [mem_filter, wantsReceipt, hsub, hstat]
    have hne := mem_map_of_mem (f := fun sub : Pid × ℕ => (sub.1,
      messageReceipt, Content.header { m.header with length := 0 })) hmem
    rw [← ha] at hne
    obtain ⟨r, hr, -⟩ := mem_map.1 hne
    exact ⟨r, hr⟩

/-- One pass: the first message that concerns `p` is gone, and a receipt is sent if it was to `p`. -/
theorem clearQueue_cases (s : State) (p : Pid) :
    (∃ msg, s.messages.find? (concerns p) = some msg ∧ msg.header.toPid = p ∧ clearQueue s p =
      sendMessageReciept { s with messages := s.messages.eraseP (concerns p) } msg.header) ∨
    (∀ msg, s.messages.find? (concerns p) = some msg → msg.header.toPid ≠ p) ∧
      clearQueue s p = { s with messages := s.messages.eraseP (concerns p) } := by
  unfold clearQueue
  cases hf : s.messages.find? (concerns p) with
  | none =>
    refine .inr ⟨by simp, ?_⟩
    rw [eraseP_of_forall_not (find?_eq_none.1 hf)]
  | some msg =>
    by_cases hto : msg.header.toPid = p
    · exact .inl ⟨msg, rfl, hto, if_pos hto⟩
    · refine .inr ⟨?_, if_neg hto⟩
      rintro m ⟨⟩
      exact hto

/-- The receipt is queued if one is due. -/
theorem clearQueue_spec (s : State) (p : Pid) :
    ∃ rs, Posted { s with messages := s.messages.eraseP (concerns p) } (clearQueue s p) rs ∧
      (∀ r ∈ rs, ∃ m ∈ s.messages, m.header.toPid = p ∧ IsReceiptFor m r ∧ ReceiptDue s m) ∧
      (∀ m, s.messages.find? (concerns p) = some m → m.header.toPid = p → ReceiptDue s m →
        ∃ r ∈ rs, IsReceiptFor m r) := by
  rcases clearQueue_cases s p with ⟨msg, hf, hto, heq⟩ | ⟨hno, heq⟩ <;> rw [heq]
  · obtain ⟨rs, hp, hr, hdue⟩ := sendMessageReciept_spec
      { s with messages := s.messages.eraseP (concerns p) } msg
    refine ⟨rs, hp, ?_, ?_⟩
    · intro r hrs
      exact ⟨msg, mem_of_find?_eq_some hf, hto, hr r hrs⟩
    · intro m hm _ hd
      cases hf.symm.trans hm
      obtain ⟨r, hrs⟩ := hdue hd
      exact ⟨r, hrs, (hr r hrs).1⟩
  · refine ⟨[], .refl _, by simp, ?_⟩
    intro m hm hto
    exact absurd hto (hno m hm)

/-- A receipt for `m` is itself to or from `p` exactly if `p` sent `m`, or `p` is the kernel. -/
theorem concerns_receipt (h : IsReceiptFor m r) : concerns p r = true ↔ m.header.fromPid = p ∨ p = 0 := by
  obtain ⟨hfrom, haddr⟩ := h
  have hto : r.header.toPid = m.header.fromPid := congrArg Prod.fst haddr
  simp only [concerns, or_eq_true, beq_iff_eq, hto, hfrom]
  exact or_congr Iff.rfl eq_comm

/-- What is neither to nor from `p`, and every subscription of another process, is kept whatever
the queue holds. -/
theorem clearMessages_keeps_others (s : State) (p : Pid) :
    (∃ rs, (clearMessages s p).messages.filter (fun m => !concerns p m) =
        s.messages.filter (fun m => !concerns p m) ++ rs ∧
      ∀ r ∈ rs, ∃ m ∈ s.messages, m.header.toPid = p ∧ IsReceiptFor m r) ∧
    (clearMessages s p).subscribers.filter (fun sub => !(sub.1 == p)) =
      s.subscribers.filter fun sub => !(sub.1 == p) := by
  obtain ⟨rs, hp, hrs, -⟩ := clearQueue_spec s p
  constructor
  · refine ⟨rs.filter fun m => !concerns p m, ?_, ?_⟩
    · show (clearQueue s p).messages.filter _ = _
      rw [hp.messages, filter_append, filter_not_eraseP]
    · intro r hr
      obtain ⟨m, hm, hto, hrec, -⟩ := hrs r (mem_filter.1 hr).1
      exact ⟨m, hm, hto, hrec⟩
  · show ((clearQueue s p).subscribers.eraseP _).filter _ = _
    rw [hp.subscribers, filter_not_eraseP]

/-- **When `ClearMessages` does its work.**  Exactly if at most one message concerns `p`, `p` has
at most one subscription, and no message to `p` is owed a receipt that would concern `p` too. -/
theorem cleared_iff (s : State) (p : Pid) : Cleared s (clearMessages s p) p ↔
      s.messages.countP (concerns p) ≤ 1 ∧ (s.subscribers.countP fun sub => sub.1 == p) ≤ 1 ∧
        ∀ m ∈ s.messages, m.header.toPid = p → (m.header.fromPid = p ∨ p = 0) → ¬ReceiptDue s m := by
  obtain ⟨rs, hp, hrs, hdue⟩ := clearQueue_spec s p
  have hmem : ∀ m, m ∈ (clearMessages s p).messages ↔ m ∈ s.messages.eraseP (concerns p) ∨ m ∈ rs := by
    intro m
    show m ∈ (clearQueue s p).messages ↔ _
    rw [hp.messages, mem_append]
  have hsub : (clearMessages s p).subscribers = s.subscribers.eraseP fun sub => sub.1 == p := by
    show (clearQueue s p).subscribers.eraseP _ = _
    rw [hp.subscribers]
  constructor
  · intro h
    have hcount : s.messages.countP (concerns p) ≤ 1 := by
      rw [← forall_not_eraseP_iff]
      intro m hm
      exact h.queue m ((hmem m).2 (.inl hm))
    refine ⟨hcount, ?_, ?_⟩
    · rw [← forall_not_eraseP_iff]
      intro sub hin
      rw [← hsub] at hin
      exact beq_eq_false_iff_ne.2 (h.subscriptions sub hin)
    · -- the receipt of the one message that is removed would stay in the queue
      intro m hm hto hfrom hd
      have hc : concerns p m = true := by simp [concerns, hto]
      obtain ⟨r, hr, hrec⟩ := hdue m (find?_of_countP_le_one hcount hm hc) hto hd
      have hclear := h.queue r ((hmem r).2 (.inr hr))
      rw [(concerns_receipt hrec).2 hfrom] at hclear
      cases hclear
  · rintro ⟨hcount, hscount, hno⟩
    obtain ⟨hkept, hothers⟩ := clearMessages_keeps_others s p
    refine ⟨?_, ?_, hkept, hothers⟩
    · intro m hm
      rcases (hmem m).1 hm with hm | hm
      · exact (forall_not_eraseP_iff _ _).2 hcount m hm
      · obtain ⟨m', hm', hto, hrec, hd⟩ := hrs m hm
        rw [← not_eq_true]
        intro hc
        exact hno m' hm' hto ((concerns_receipt hrec).1 hc) hd
    · intro sub hin
      rw [hsub] at hin
      exact beq_eq_false_iff_ne.1 ((forall_not_eraseP_iff _ _).2 hscount sub hin)

def userMessage (id : ℕ) (fromPid toPid : Pid) : Message :=
  ⟨{ valid := true, id := id, replyId := 0, flags := MsgFlag.userSpace, source := 0,
     fromPid := fromPid, toPid := toPid, type := 0, length := 0, critical := false,
     recieved := false, replied := false }, .bytes []⟩

/-- Two messages, from processes 3 and 4, wait for process 2. -/
def twoWaiting : State where
  messages := [userMessage 1 3 2, userMessage 2 4 2]
  idCounter := 2
  subscribers := []
  status := fun _ => .running
  currentMessageID := fun _ => 0
  replyIdJunk := 0
  issued := 2

/-- The second of two messages to a process stays queued when the process is cleared. -/
theorem second_message_survives : ¬Cleared twoWaiting (clearMessages twoWaiting 2) 2 := by
  intro h
  have hm := h.queue (userMessage 2 4 2) (by decide)
  exact absurd hm (by decide)

end Btos.Kernel.Messaging
