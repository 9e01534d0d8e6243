import Btos.Kernel.Messaging.System

/-!
# Replies: at most one per message?

`SendMessage` refuses a reply to a message that is marked `replied`, and after its checks sets that
mark.  But the mark goes to a local copy of whatever message has the *pid of the replier* as its id
(`markReplied`), so **no queued message is ever marked** (`queued_not_replied`), and the check never
refuses anything: as long as a message is queued, its receiver may reply to it again and again.

What is left is a duty of the callers (`ReplyOk`): the receiver of a message does not reply to it a
second time while it is queued.  In every run in which they keep it, each message gets at most one
reply (`accepted_once`); `two_replies` is a run in which one does not.
-/

namespace Btos.Kernel.Messaging

open Lib.Transition Function List Option

/-- The message is a reply to the message with id `r`. -/
def repliesTo (r : ℕ) (m : Message) : Bool := m.header.isReply && m.header.replyId == r

/-- The id of the message that a thread is answering, once its reply has passed the checks. -/
def Pc.answering : Pc → Option ℕ
  | .sendNumber msg | .sendAdd msg | .sendBlocked msg =>
      if msg.header.isReply then some msg.header.replyId else none
  | _ => none

/-- A reply to `r` has been queued, or is past its checks. -/
def Answered (w : World) (r : ℕ) : Prop :=
  (∃ m ∈ w.accepted, repliesTo r m = true) ∨ ∃ t, (w.pc t).answering = some r

/-- The duty of the callers: when a reply comes to its checks and the message it answers is queued
and was sent the other way, that message has no reply yet. -/
def ReplyOk (w : World) (a : Act) : Prop :=
  match w.pc a.thread with
  | .sendReply msg => ∀ prev ∈ w.mgr.messages, prev.header.id = msg.header.replyId →
      prev.header.toPid = msg.header.fromPid → prev.header.fromPid = msg.header.toPid →
        ¬Answered w msg.header.replyId
  | _ => True

/-! ### The mark is never set -/

/-- No message carries the mark, queued or on its way. -/
structure Unmarked (w : World) : Prop where
  queued : ∀ m ∈ w.mgr.messages, m.header.replied = false
  carried : ∀ t msg, (w.pc t).carried = some msg → msg.header.replied = false

theorem Turn.carried (h : Turn s k k')
    (hm : k'.carried = some msg) : k.carried = some msg ∨ ∃ h c, msg = newMessage h c := by
  cases h with
  | called h c =>
    cases hm
    exact .inr ⟨h, c, rfl⟩
  | plain | reply | allowed | blocks | wakes => exact .inl hm
  | free _ _ hfree =>
    rw [hfree] at hm
    cases hm

theorem Unmarked.carried_update (h : Unmarked w)
    (hk : ∀ msg, k'.carried = some msg → msg.header.replied = false) :
    ∀ u msg, (update w.pc t k' u).carried = some msg → msg.header.replied = false := by
  intro u msg hu
  by_cases hut : u = t
  · subst hut
    rw [update_self] at hu
    exact hk msg hu
  · rw [update_of_ne hut] at hu
    exact h.carried u msg hu

theorem Unmarked.step (h : Unmarked w) (hs : step w a = some w') : Unmarked w' := by
  constructor
  · intro m hm
    rcases step_mem hs hm with hold | hadd | ⟨hnew, -⟩
    · exact h.queued m hold
    · exact h.carried a.thread m (by rw [hadd]; rfl)
    · exact hnew
  · obtain ⟨k', hpc, ⟨-, hturn, -⟩ | ⟨msg, ht, -, rfl, -⟩ | ⟨msg, -, rfl, -⟩⟩ := step_cases hs <;> rw [hpc] <;>
      refine h.carried_update ?_
    · intro msg hk
      rcases hturn.carried hk with hold | ⟨hd, c, rfl⟩
      · exact h.carried _ msg hold
      · rfl
    · intro m hm
      cases hm
      exact h.carried a.thread msg (by rw [ht]; rfl)
    · intro m hm
      cases hm

/-- **The mark is dead**: no message in the queue is ever marked as replied. -/
theorem queued_not_replied (h : Reach step ok (init status cur junk) w) :
    ∀ m ∈ w.mgr.messages, m.header.replied = false := by
  refine (h.invariant Unmarked ⟨?_, ?_⟩ ?_).queued
  · nofun
  · nofun
  · intro w a w' hi _ hs
    exact hi.step hs

/-! ### Runs in which the callers keep their duty -/

/-- Each message has at most one reply, counting the one on its way. -/
structure Single (w : World) : Prop where
  once : ∀ r, w.accepted.countP (repliesTo r) ≤ 1
  none_yet : ∀ t r, (w.pc t).answering = some r → w.accepted.countP (repliesTo r) = 0
  apart : ∀ t u r, t ≠ u → (w.pc t).answering = some r → (w.pc u).answering ≠ some r

theorem Turn.answering (h : Turn s k k') (hk : k'.answering = some r) : k.answering = some r ∨
      ∃ msg, k = .sendReply msg ∧ msg.header.replyId = r ∧ replyRefused s msg = false := by
  cases h with
  | called | reply => cases hk
  | plain msg hplain => simp [Pc.answering, hplain] at hk
  | allowed msg hok =>
    simp only [Pc.answering, ite_none_right_eq_some, some.injEq] at hk
    exact .inr ⟨msg, rfl, hk.2, hok⟩
  | blocks | wakes => exact .inl hk
  | free _ _ hfree => cases k' <;> first | cases hk | cases hfree

theorem replyRefused_false (h : replyRefused s msg = false) :
    ∃ prev ∈ s.messages, prev.header.id = msg.header.replyId ∧
      prev.header.toPid = msg.header.fromPid ∧ prev.header.fromPid = msg.header.toPid := by
  unfold replyRefused at h
  split at h
  · cases h
  · rename_i prev hget
    simp only [Bool.or_eq_false_iff, bne_eq_false_iff_eq] at h
    exact ⟨prev, (getMessage_some hget).1, (getMessage_some hget).2, h.1.1, h.1.2⟩

/-- Threads that answer after a move of `t` to `k'`: `t` itself, or one that answered before. -/
theorem answering_update {w : World} {t : ℕ} {k' : Pc} {u r : ℕ} (h : (update w.pc t k' u).answering = some r) :
    (u = t ∧ k'.answering = some r) ∨ (u ≠ t ∧ (w.pc u).answering = some r) := by
  by_cases hut : u = t
  · subst hut
    rw [update_self] at h
    exact .inl ⟨rfl, h⟩
  · rw [update_of_ne hut] at h
    exact .inr ⟨hut, h⟩

/-- The thread that moves answers what it answered before, or something nobody has answered. -/
theorem Single.move {w w' : World} {t : ℕ} {k' : Pc} (h : Single w)
    (hacc : w'.accepted = w.accepted) (hpc : w'.pc = update w.pc t k')
    (hk : ∀ r, k'.answering = some r → (w.pc t).answering = some r ∨ ¬Answered w r) : Single w' := by
  -- whoever answers `r` now did so before, or is `t` with a fresh answer
  have hcase : ∀ u r, (w'.pc u).answering = some r → (w.pc u).answering = some r ∨ (u = t ∧ ¬Answered w r) := by
    intro u r hu
    rw [hpc] at hu
    rcases answering_update hu with ⟨hut, hu⟩ | ⟨-, hu⟩
    · rw [hut]
      exact (hk r hu).imp id fun hn => ⟨rfl, hn⟩
    · exact .inl hu
  refine ⟨hacc ▸ h.once, ?_, ?_⟩
  · intro u r hu
    rw [hacc]
    rcases hcase u r hu with hold | ⟨-, hn⟩
    · exact h.none_yet u r hold
    · rw [countP_eq_zero]
      intro m hm hr
      exact hn (.inl ⟨m, hm, hr⟩)
  · intro u v r huv hu hv
    rcases hcase u r hu with hold | ⟨hut, hn⟩ <;> rcases hcase v r hv with hold' | ⟨hvt, hn'⟩
    · exact h.apart u v r huv hold hold'
    · exact hn' (.inr ⟨u, hold⟩)
    · exact hn (.inr ⟨v, hold'⟩)
    · exact huv (hut.trans hvt.symm)

theorem Single.step {w w' : World} {a : Act} (h : Single w) (hok : ReplyOk w a)
    (hs : step w a = some w') : Single w' := by
  obtain ⟨k', hpc, ⟨-, hturn, hacc⟩ | ⟨msg, ht, -, rfl, hacc⟩ | ⟨msg, ht, rfl, hadd, hacc⟩⟩ :=
    step_cases hs
  · refine h.move hacc hpc ?_
    intro r hr
    rcases hturn.answering hr with hold | ⟨msg, hk, rfl, hpass⟩
    · exact .inl hold
    · obtain ⟨prev, hmem, hid, hto, hfrom⟩ := replyRefused_false hpass
      unfold ReplyOk at hok
      rw [hk] at hok
      exact .inr (hok prev hmem hid hto hfrom)
  · refine h.move hacc hpc ?_
    intro r hr
    rw [ht]
    exact .inl hr
  · -- the reply that is queued was the one on its way
    have hans : ∀ r, repliesTo r msg = true → (w.pc a.thread).answering = some r := by
      intro r hr
      simp only [repliesTo, Bool.and_eq_true, beq_iff_eq] at hr
      simp [ht, Pc.answering, hr.1, hr.2]
    have hcount : ∀ r, w'.accepted.countP (repliesTo r) ≤
        w.accepted.countP (repliesTo r) + if repliesTo r msg = true then 1 else 0 := by
      intro r
      rw [hacc, countP_append]
      split
      · exact Nat.le_of_eq (by rw [countP_singleton])
      · exact Nat.le_add_right _ _
    have hold : ∀ u r, (w'.pc u).answering = some r → u ≠ a.thread ∧ (w.pc u).answering = some r := by
      intro u r hu
      rw [hpc] at hu
      rcases answering_update hu with ⟨-, hu⟩ | hu
      · cases hu
      · exact hu
    refine ⟨?_, ?_, ?_⟩
    · intro r
      have hc := hcount r
      by_cases hr : repliesTo r msg = true
      · rw [if_pos hr, h.none_yet _ r (hans r hr)] at hc
        exact hc
      · rw [if_neg hr] at hc
        exact Nat.le_trans hc (h.once r)
    · intro u r hu
      obtain ⟨hne, hu'⟩ := hold u r hu
      have hc := hcount r
      have hnr : ¬repliesTo r msg = true := fun hr => h.apart _ _ r hne hu' (hans r hr)
      rw [if_neg hnr, h.none_yet u r hu'] at hc
      exact Nat.le_zero.1 hc
    · intro u v r huv hu hv
      exact h.apart u v r huv (hold u r hu).2 (hold v r hv).2

/-- **One reply per message.**  In every run in which no receiver replies again to a message that is
still queued, `SendMessage` queues at most one reply to each id. -/
theorem accepted_once {status : Pid → ProcStatus} {cur : Pid → ℕ} {junk : ℕ} {w : World}
    (h : Reach step ReplyOk (init status cur junk) w) : ∀ r, w.accepted.countP (repliesTo r) ≤ 1 := by
  refine (h.invariant Single ⟨?_, ?_, ?_⟩ ?_).once
  · intro r
    exact Nat.zero_le _
  · nofun
  · nofun
  · intro w a w' hi hok hs
    exact hi.step hok hs

/-- Process 3 sends a message to process 2, which replies to it. -/
def askAndReply : List Act :=
  let reply : MsgHeader :=
    { (userMessage 0 2 3).header with flags := MsgFlag.reply, replyId := 1 }
  [.btSend 1 3 (userMessage 0 3 2).header [], .go 1, .go 1, .go 1,
    .btSend 2 2 reply [], .go 2, .go 2, .go 2, .go 2]

theorem accepted_once_askAndReply :
    ∃ w, exec step (init (fun _ => .running) (fun _ => 0) 0) askAndReply = some w ∧
      w.accepted.length = 2 ∧ ∀ r, w.accepted.countP (repliesTo r) ≤ 1 := by
  refine ⟨_, rfl, by decide, ?_⟩
  have hg : Guarded step ReplyOk (init (fun _ => .running) (fun _ => 0) 0) askAndReply := by
    refine ⟨trivial, trivial, trivial, trivial, trivial, trivial, ?_, trivial, trivial, trivial⟩
    -- the reply comes to its checks: only the question is queued, and no other thread is sending
    intro prev _ _ _ _ hans
    rcases hans with ⟨m, hm, hr⟩ | ⟨t, ht⟩
    · rw [mem_singleton.1 hm] at hr
      exact absurd hr (by decide)
    · match t, ht with
      | 0, ht | 1, ht | 2, ht | t + 3, ht => cases ht
  exact accepted_once (Reach.of_exec step ReplyOk askAndReply
    (init (fun _ => .running) (fun _ => 0) 0) rfl hg)

/-- The question has been answered, and is not marked. -/
theorem queued_not_replied_askAndReply : ∃ w, Reach step anyStep (init (fun _ => .running) (fun _ => 0) 0) w ∧
    w.mgr.messages.length = 2 ∧ ∀ m ∈ w.mgr.messages, m.header.replied = false := by
  have hrun := Reach.of_exec step anyStep askAndReply
    (init (fun _ => .running) (fun _ => 0) 0) rfl (guarded_anyStep _ _ _)
  exact ⟨_, hrun, by decide, queued_not_replied hrun⟩

/-- Process 2 replies twice to the message from process 3, and both replies are queued. -/
theorem two_replies :
    ∃ w, Reach step anyStep (init (fun _ => .running) (fun _ => 0) 0) w ∧
      w.accepted.countP (repliesTo 1) = 2 ∧ w.mgr.messages.countP (repliesTo 1) = 2 := by
  have hrun := Reach.of_exec step anyStep (askAndReply ++ askAndReply.drop 4)
    (init (fun _ => .running) (fun _ => 0) 0) rfl (guarded_anyStep _ _ _)
  exact ⟨_, hrun, by decide, by decide⟩

end Btos.Kernel.Messaging
