import Mathlib.Data.List.Nodup
import Btos.Kernel.Messaging.Queue

/-!
# A receipt for every message taken

A process that has subscribed to `MessageReceipt` is told when a message of its own has been taken
from the queue.  `AcknowledgeMessage` removes the message in one section and sends the receipt in its
next one, **from the header its caller passed**; `ClearMessages` sends it at once from the stored
header, and only for messages *to* the process that is cleared.

* `step_kinds` — **which steps remove messages and send receipts**.

`Btos.Kernel.Messaging.ReceiptRuns` has the invariant and the runs.
-/

namespace Btos.Kernel.Messaging

open Lib.Transition Lib.Lists Function List KernelMessage

/-- Processes 3 and 4 subscribe to receipts, and process 3 sends a message to process 2. -/
def subscribedPost : List Act :=
  [.btSubscribe 3 3 KernelMessage.messageReceipt, .btSubscribe 4 4 KernelMessage.messageReceipt,
    .btSend 3 3 (userMessage 0 3 2).header [], .go 3, .go 3, .go 3]

/-! ### The record -/

/-- The messages that are new in the queue of `s'`. -/
def cameIn (s s' : State) : List Message := s'.messages.filter fun m => m ∉ s.messages

/-- The messages that have left the queue of `s`. -/
def wentOut (s s' : State) : List Message := s.messages.filter fun m => m ∉ s'.messages

/-- The section in which the receipt for a removed message is due: the subscriptions and the processes
at its begin, and all that it has queued. -/
structure Outcome where
  subscribers : List (Pid × ℕ)
  status : Pid → ProcStatus
  queued : List Message

/-- The section from `s` to `s'`. -/
def outcome (s s' : State) : Outcome := ⟨s.subscribers, s.status, cameIn s s'⟩

/-- A message that has left the queue, by which act, all that the section which took it out has queued, and
what came of the receipt. -/
structure Removal where
  message : Message
  act : Act
  queued : List Message
  outcome : Option Outcome

/-- The system with its removals; `pending t` is the place of the removal that thread `t` has still to
send the receipt for. -/
structure Ledger where
  world : World
  removals : List Removal
  pending : ℕ → Option ℕ

/-- The next section of a thread settles the removal that is pending for it. -/
def settle (l : Ledger) (s' : State) : Act → List Removal
  | .go t =>
      match l.pending t with
      | some i => l.removals.modify i fun r => { r with outcome := some (outcome l.world.mgr s') }
      | none => l.removals
  | _ => l.removals

/-- A removal as it is entered: an acknowledging call still has to send its receipt. -/
def entry (s s' : State) (a : Act) (m : Message) : Removal :=
  ⟨m, a, cameIn s s', if a.acknowledges.isSome then none else some (outcome s s')⟩

/-- The ledger after a step to `w`. -/
def Ledger.after (l : Ledger) (a : Act) (w : World) : Ledger where
  world := w
  removals := settle l w.mgr a ++ (wentOut l.world.mgr w.mgr).map (entry l.world.mgr w.mgr a)
  pending := update l.pending a.thread
    (if a.acknowledges.isSome && !(wentOut l.world.mgr w.mgr).isEmpty then
      some l.removals.length else none)

def ledgerStep (l : Ledger) (a : Act) : Option Ledger := (step l.world a).map (l.after a)

/-- The manager as it is constructed, with an empty ledger. -/
def openLedger (status : Pid → ProcStatus) (cur : Pid → ℕ) (junk : ℕ) : Ledger :=
  ⟨init status cur junk, [], fun _ => none⟩

/-! ### What is promised -/

/-- `r` is a receipt for `m`: from the kernel to the sender of `m`, with the id of `m`. -/
def CarriesReceipt (m r : Message) : Prop :=
  r.header.fromPid = 0 ∧ r.header.toPid = m.header.fromPid ∧ r.header.type = messageReceipt ∧
      ∃ h, r.content = .header h ∧ h.id = m.header.id

/-- The sender of `m` gets a receipt: it is subscribed and exists. -/
def Outcome.Due (o : Outcome) (m : Message) : Prop :=
  (m.header.fromPid, messageReceipt) ∈ o.subscribers ∧ o.status m.header.fromPid ≠ .doesNotExist

/-- Exactly one receipt for `m` was queued if one was due, and otherwise nothing. -/
def Outcome.Exactly (o : Outcome) (m : Message) : Prop :=
  (o.Due m → ∃ r, o.queued = [r] ∧ CarriesReceipt m r) ∧ (¬o.Due m → o.queued = [])

/-- The removal has been followed up: an acknowledgement, which queues nothing itself, by the one receipt that
is due if it names the sender; `ClearMessages` for messages to its process by the same, and for messages
from it to others by none. -/
def Removal.Followed (r : Removal) : Prop :=
  ∃ o, r.outcome = some o ∧
    match r.act with
    | .btAck _ _ h | .btNextMsg _ _ h | .btNextMsgFiltered _ _ _ h =>
        r.queued = [] ∧ h.id = r.message.header.id ∧ (h.fromPid = r.message.header.fromPid → o.Exactly r.message)
    | .clearMessages _ p =>
        concerns p r.message = true ∧
          if r.message.header.toPid = p then o.Exactly r.message else o.queued = []
    | _ => False

/-- The removal at place `i` still waits: the thread that acknowledged the message is about to send the
receipt for it, and for no other, and has queued nothing yet. -/
def Ledger.Waits (l : Ledger) (i : ℕ) (r : Removal) : Prop :=
  r.outcome = none ∧ r.queued = [] ∧ l.pending r.act.thread = some i ∧
    ∃ p h k, r.act.acknowledges = some (p, h, k) ∧ h.id = r.message.header.id ∧
      l.world.pc r.act.thread = .receipt h k

/-! ### Which steps remove messages and send receipts -/

inductive Kind (w : World) (a : Act) (w' : World) : Prop where
  /-- The first section of `AcknowledgeMessage`, for a queued message. -/
  | acknowledged (p : Pid) (h : MsgHeader) (k : After) (m : Message)
      (ha : a.acknowledges = some (p, h, k)) (hm : getMessage w.mgr h.id = some m)
      (hidle : w.pc a.thread = .idle) (hmgr : w'.mgr = acknowledge w.mgr p h.id)
      (hpc : w'.pc = update w.pc a.thread (.receipt h k))
  /-- Its second section. -/
  | receipted (t : ℕ) (h : MsgHeader) (k : After) (ha : a = .go t) (hat : w.pc t = .receipt h k)
      (hmgr : w'.mgr = sendMessageReciept w.mgr h) (hpc : w'.pc = update w.pc t k.pc)
  | cleared (t : ℕ) (p : Pid) (ha : a = .clearMessages t p) (hidle : w.pc t = .idle)
      (hmgr : w'.mgr = clearMessages w.mgr p) (hpc : w'.pc = update w.pc t .idle)
  /-- Everything else: no message leaves the queue and no receipt is begun or sent. -/
  | quiet (k' : Pc) (hpc : w'.pc = update w.pc a.thread k')
      (hk' : ∀ h k, k' ≠ .receipt h k) (hk : ∀ h k, w.pc a.thread ≠ .receipt h k)
      (hkeep : w.mgr.messages ⊆ w'.mgr.messages)
      (hsubs : w.mgr.subscribers.Nodup → w'.mgr.subscribers.Nodup)

/-- **Every step is of one of the kinds.** -/
theorem step_kinds (h : step w a = some w') : Kind w a w' := by
  rcases step_inv h with ⟨t, s', k', new, rfl, hr, rfl⟩ | ⟨t, rfl, hab, rfl⟩ | ⟨hidle, s', k', hr, rfl⟩
  · by_cases hat : ∃ hd r, w.pc t = .receipt hd r
    · obtain ⟨hd, r, hat⟩ := hat
      rw [hat] at hr
      cases hr
      exact .receipted t hd r rfl hat rfl rfl
    · have hk : ∀ hd r, w.pc t ≠ .receipt hd r := fun hd r heq => hat ⟨hd, r, heq⟩
      rcases advance_cases hr with ⟨hmild, -, -, hk'⟩ | ⟨msg, -, rfl, rfl, -⟩ | ⟨msg, -, rfl, hadd, -⟩
      · exact .quiet k' rfl hk' hk hmild.kept hmild.subscribers
      · exact .quiet _ rfl (by simp) hk (List.Subset.refl _) id
      · rcases (addMessage_some hadd).1 with rfl | rfl
        · exact .quiet _ rfl (by simp) hk (List.Subset.refl _) id
        · exact .quiet _ rfl (by simp) hk (subset_append_left _ _) id
  · refine .quiet .idle rfl (by simp) ?_ (List.Subset.refl _) id
    intro hd r heq
    have heq' : w.pc t = .receipt hd r := heq
    rw [heq'] at hab
    cases hab
  · have hk := Pc.ne_receipt_of_idle hidle
    cases hack : a.acknowledges with
    | some phk =>
      obtain ⟨p, hd, k⟩ := phk
      rw [enter_acknowledges hack, acknowledgeMessage, haveMessage_eq_isSome] at hr
      cases hm : getMessage w.mgr hd.id with
      | none =>
        rw [hm] at hr
        cases hr
        exact .quiet k.pc rfl (k.pc_ne_receipt) hk (List.Subset.refl _) id
      | some m =>
        rw [hm] at hr
        cases hr
        exact .acknowledged p hd k m hack hm hidle rfl rfl
    | none =>
      by_cases hclear : ∃ t p, a = .clearMessages t p
      · obtain ⟨t, p, rfl⟩ := hclear
        cases hr
        exact .cleared t p rfl hidle rfl rfl
      · obtain ⟨hmild, -, hk'⟩ := enter_mild hr hack fun t p ha => hclear ⟨t, p, ha⟩
        exact .quiet k' rfl hk' hk hmild.kept hmild.subscribers

/-! ### What the kinds do to the queue -/

section

variable {w : World} {l rs : List Message} {s₁ s' : State}

theorem cameIn_eq (ht : Tidy w) (hl : l ⊆ w.mgr.messages)
    (hp : Posted { w.mgr with messages := l } s₁ rs) (hb : s₁.issued < 2 ^ 64)
    (hm : s'.messages = l ++ rs) : cameIn w.mgr s' = rs := by
  have hfresh : ∀ m ∈ rs, m ∉ w.mgr.messages := by
    intro m hmem hold
    have hnew : w.mgr.issued < m.header.id := (hp.fresh hb ht.counter m hmem).1
    have := (ht.ids m hold).2
    omega
  rw [cameIn, hm, filter_append]
  have hleft : (l.filter fun m => m ∉ w.mgr.messages) = [] := by
    rw [filter_eq_nil_iff]
    intro m hmem
    simp [hl hmem]
  have hright : (rs.filter fun m => m ∉ w.mgr.messages) = rs := by
    rw [filter_eq_self]
    intro m hmem
    simp [hfresh m hmem]
  rw [hleft, hright, nil_append]

theorem wentOut_eq (ht : Tidy w) (hf : w.mgr.messages.find? q = some m)
    (hp : Posted { w.mgr with messages := w.mgr.messages.eraseP q } s₁ rs) (hb : s₁.issued < 2 ^ 64)
    (hm : s'.messages = w.mgr.messages.eraseP q ++ rs) : wentOut w.mgr s' = [m] := by
  have hnodup : w.mgr.messages.Nodup := List.Nodup.of_map _ ht.distinct
  rw [← filter_not_mem_eraseP hnodup hf, wentOut, hm]
  refine filter_congr ?_
  intro x hx
  have hnot : x ∉ rs := by
    intro hr
    have hnew : w.mgr.issued < x.header.id := (hp.fresh hb ht.counter x hr).1
    have := (ht.ids x hx).2
    omega
  simp [hnot]

theorem wentOut_nil (h : s.messages ⊆ s'.messages) : wentOut s s' = [] := by
  rw [wentOut, filter_eq_nil_iff]
  intro m hm
  simp [h hm]

end

theorem filter_wantsReceipt (s : State) (h : MsgHeader) (hn : s.subscribers.Nodup) :
    (s.subscribers.filter fun sub => wantsReceipt h sub && s.status sub.1 != .doesNotExist) =
      if (h.fromPid, messageReceipt) ∈ s.subscribers ∧ s.status h.fromPid ≠ .doesNotExist then
        [(h.fromPid, messageReceipt)] else [] := by
  have hpred : ∀ sub : Pid × ℕ, (wantsReceipt h sub && s.status sub.1 != .doesNotExist) = true ↔
      sub = (h.fromPid, messageReceipt) ∧ s.status h.fromPid ≠ .doesNotExist := by
    rintro ⟨p, n⟩
    simp only [wantsReceipt, Bool.and_eq_true, beq_iff_eq, bne_iff_ne, Prod.mk.injEq]
    constructor
    · rintro ⟨⟨rfl, rfl⟩, hs⟩
      exact ⟨⟨rfl, rfl⟩, hs⟩
    · rintro ⟨⟨rfl, rfl⟩, hs⟩
      exact ⟨⟨rfl, rfl⟩, hs⟩
  split
  · rename_i hdue
    have hcongr : (s.subscribers.filter fun sub =>
        wantsReceipt h sub && s.status sub.1 != .doesNotExist) =
        s.subscribers.filter (· == (h.fromPid, messageReceipt)) := by
      refine filter_congr ?_
      intro sub _
      rw [Bool.eq_iff_iff, hpred, beq_iff_eq]
      exact and_iff_left hdue.2
    rw [hcongr, filter_beq, count_eq_one_of_mem hn hdue.1, replicate_one]
  · rename_i hnot
    rw [filter_eq_nil_iff]
    intro sub hsub hw
    obtain ⟨rfl, hs⟩ := (hpred sub).1 hw
    exact hnot ⟨hsub, hs⟩

/-- **`SendMessageReciept`** for a header with the id and the sender of `m` queues exactly what it
should. -/
theorem sendMessageReciept_exactly (s : State) (hn : s.subscribers.Nodup) :
    ∃ rs, Posted s (sendMessageReciept s h) rs ∧ ∀ m : Message, h.id = m.header.id →
      h.fromPid = m.header.fromPid → Outcome.Exactly ⟨s.subscribers, s.status, rs⟩ m := by
  obtain ⟨rs, hp, ha⟩ := postToSubscribers_spec (wantsReceipt h)
    messageReceipt headerSize (.header { h with length := 0 }) s.subscribers s
  rw [filter_wantsReceipt s h hn] at ha
  refine ⟨rs, hp, ?_⟩
  intro m hid hfrom
  constructor
  · rintro ⟨hsub, hstat⟩
    rw [← hfrom] at hsub hstat
    rw [if_pos ⟨hsub, hstat⟩] at ha
    obtain ⟨r, rfl, hr⟩ := map_eq_singleton_iff.1 ha
    have hto : r.header.toPid = h.fromPid := congrArg Prod.fst hr
    exact ⟨r, rfl, (hp.fromKernel r mem_cons_self).1, hto.trans hfrom,
      congrArg (fun x => x.2.1) hr, { h with length := 0 }, congrArg (fun x => x.2.2) hr, hid⟩
  · intro hdue
    rw [Outcome.Due, ← hfrom] at hdue
    rw [if_neg hdue] at ha
    exact map_eq_nil_iff.1 ha

end Btos.Kernel.Messaging
