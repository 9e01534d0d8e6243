import Btos.Kernel.Messaging.ContentSteps

/-!
# Each act keeps values and book in agreement

Act by act, the operations of `commands` are possible on the values of `Booked`, and lead to values and a
book that agree with the next state of the system.

* `Booked.step` — **the step lemma**.
-/

namespace Btos.Kernel.Messaging

open Function List Option Message

/-! ### What one thread does -/

section

variable {L : Layout} {t : ℕ} {w : World} {mgr : State} {k' : Pc} {s : Shelf} {b : Book}

theorem Pc.carried_of_inHand {k : Pc} {msg : Message} (h : k.inHand = some msg) : k.carried = some msg := by
  cases k with
  | sendAdd m | sendBlocked m => exact h
  | idle | sendCheck | sendReply | sendNumber | receipt | await | awaitCurrent | awaitFiltered =>
    cases h

theorem Pc.inHand_none {k : Pc} (h : k.carried = none) {msg : Message} : k.inHand ≠ some msg := by
  intro hh
  rw [Pc.carried_of_inHand hh] at h
  cases h

section

variable (h : Booked L w s b)
include h

theorem Booked.same (hq : mgr.messages = w.mgr.messages) (hk : k'.carried = (w.pc t).carried)
    (hh : ∀ msg, k'.inHand = some msg → (w.pc t).inHand = some msg) : Moved L t w mgr k' s s b b where
  queue := h.queue.trans hq.symm
  own := by rw [hk, h.senders t]
  others _ _ := ⟨rfl, rfl⟩
  passed msg hmsg := h.passed t msg (hk ▸ hmsg)
  old _ _ := rfl
  sent m hm := .inl (hq ▸ hm)
  hand msg hmsg := h.hands t msg (hh msg hmsg)

theorem Booked.same_of_none (hq : mgr.messages = w.mgr.messages)
    (hold : (w.pc t).carried = none) (hk : k'.carried = none) : Moved L t w mgr k' s s b b :=
  h.same hq (hk.trans hold.symm) fun _ hmsg => absurd hmsg (Pc.inHand_none hk)

theorem Booked.construct (hidle : (w.pc t).carried = none)
    (hq : mgr.messages = w.mgr.messages) (hlen : (L.bytes msg.content).length = msg.header.length) :
    ∃ s', evalAll L [.construct (.sender t) msg] s = some s' ∧
      Moved L t w mgr (.sendCheck msg) s s' b (recordAll L [.construct (.sender t) msg] b) := by
  have hk : s.vars (.sender t) = none := (h.senders t).trans hidle
  refine ⟨{ s with vars := update s.vars (.sender t) (some msg) },
    by simp only [evalAll, Cmd.eval, hk, hlen, and_self, if_true, bind_some], ?_⟩
  refine ⟨h.queue.trans hq.symm, update_self .., ?_, ?_, fun _ _ => rfl, ?_, ?_⟩
  · intro k hne
    exact ⟨update_of_ne hne .., update_of_ne hne ..⟩
  · intro msg' hmsg'
    cases hmsg'
    exact update_self ..
  · intro m hm
    exact .inl (hq ▸ hm)
  · intros; contradiction

theorem Booked.dropped (hc : (w.pc t).carried = some msg)
    (hq : mgr.messages = w.mgr.messages) : ∃ s', evalAll L [.destroy (.sender t)] s = some s' ∧
      Moved L t w mgr .idle s s' b (recordAll L [.destroy (.sender t)] b) := by
  have hk : s.vars (.sender t) = some msg := (h.senders t).trans hc
  refine ⟨{ s with vars := update s.vars (.sender t) none }, by simp only [evalAll, Cmd.eval, hk, map_some, bind_some], ?_⟩
  refine ⟨h.queue.trans hq.symm, update_self .., ?_, ?_, fun _ _ => rfl, ?_, ?_⟩
  · intro k hne
    exact ⟨update_of_ne hne .., rfl⟩
  · intros; contradiction
  · intro m hm
    exact .inl (hq ▸ hm)
  · intros; contradiction

theorem Booked.number (hat : w.pc t = .sendNumber msg) (hb : (nextID w.mgr).1.issued < 2 ^ 64) :
    ∃ s', evalAll L [.number (.sender t) (nextID w.mgr).2] s = some s' ∧
      Moved L t w (nextID w.mgr).1 (.sendAdd (msg.withID (nextID w.mgr).2)) s s' b
        (recordAll L [.number (.sender t) (nextID w.mgr).2] b) := by
  have hc : (w.pc t).carried = some msg := by rw [hat]; rfl
  have hk : s.vars (.sender t) = some msg := (h.senders t).trans hc
  have hid : (nextID w.mgr).2 = w.mgr.issued + 1 := (nextID_posted w.mgr).counter hb h.tidy.counter
  refine ⟨{ s with vars := update s.vars (.sender t) (some (msg.withID (nextID w.mgr).2)) },
    by simp only [evalAll, Cmd.eval, hk, map_some, bind_some], ?_⟩
  refine ⟨h.queue, update_self .., ?_, ?_, ?_, fun m hm => .inl hm, ?_⟩
  · intro k hne
    exact ⟨update_of_ne hne .., rfl⟩
  · intro msg' hmsg'
    cases hmsg'
    exact h.passed t msg hc
  · intro id hle
    have hne : id ≠ (nextID w.mgr).2 := by omega
    exact update_of_ne hne ..
  · intro msg' hmsg'
    cases hmsg'
    show update b.sent _ (some (b.passed (.sender t))) (nextID w.mgr).2 = _
    rw [update_self, h.passed t msg hc]
    rfl

/-- The message is pushed, or dropped if its destination has gone, and the variable goes. -/
theorem Booked.push (hat : w.pc t = .sendAdd msg) (hadd : addMessage w.mgr msg = some mgr) :
    ∃ s', evalAll L ((if w.mgr.status msg.header.toPid ≠ .doesNotExist then [.push (.sender t)]
        else []) ++ [.destroy (.sender t)]) s = some s' ∧
      Moved L t w mgr .idle s s' b (recordAll L ((if w.mgr.status msg.header.toPid ≠ .doesNotExist then
        [.push (.sender t)] else []) ++ [.destroy (.sender t)]) b) := by
  have hc : (w.pc t).carried = some msg := by rw [hat]; rfl
  have hk : s.vars (.sender t) = some msg := (h.senders t).trans hc
  unfold addMessage at hadd
  split at hadd
  · cases hadd
  by_cases hs : w.mgr.status msg.header.toPid ≠ .doesNotExist
  · rw [if_pos hs] at hadd ⊢
    cases hadd
    refine ⟨⟨s.queue ++ [msg], update s.vars (.sender t) none⟩, by
      simp only [cons_append, nil_append, evalAll, Cmd.eval, hk, map_some, bind_some], ?_⟩
    refine ⟨by rw [h.queue], update_self .., ?_, ?_, fun _ _ => rfl, ?_, ?_⟩
    · intro k hne
      exact ⟨update_of_ne hne .., rfl⟩
    · intros; contradiction
    · intro m hm
      rcases mem_append.1 hm with hm | hm
      · exact .inl hm
      · rw [mem_singleton.1 hm]
        exact .inr (h.hands t msg (by rw [hat]; rfl))
    · intros; contradiction
  · rw [if_neg hs] at hadd ⊢
    cases hadd
    exact h.dropped hc rfl

/-- Messages are erased and kernel messages follow, by a thread without a variable of its own. -/
theorem Booked.posted (s₁ : State) {s' : Shelf} {b' : Book}
    (hidle : (w.pc t).carried = none) (hk' : k'.carried = none)
    (hsub : s₁.messages ⊆ w.mgr.messages) (hissued : s₁.issued = w.mgr.issued)
    (hent : Entered L t s₁ mgr b b') (hs' : s' = { s with queue := mgr.messages }) :
    Moved L t w mgr k' s s' b b' where
  queue := by rw [hs']
  own := by
    rw [hs', hk']
    exact (h.senders t).trans hidle
  others k hne := by
    rw [hs']
    exact ⟨rfl, hent.passed k hne⟩
  passed msg hmsg := by
    rw [hk'] at hmsg
    cases hmsg
  old id hle := hent.old id (hissued ▸ hle)
  sent m hm := (hent.sent m hm).imp (fun hm => hsub hm) And.right
  hand msg hmsg := absurd hmsg (Pc.inHand_none hk')

end

theorem evalAll_erase (q : Message → Bool) (s : Shelf) (b : Book) :
    evalAll L (eraseCommands q s.queue) s = some { s with queue := s.queue.eraseP q } ∧
      recordAll L (eraseCommands q s.queue) b = b := by
  unfold eraseCommands
  rw [eraseP_eq_eraseIdx]
  cases hi : s.queue.findIdx? q with
  | none => exact ⟨rfl, rfl⟩
  | some i =>
    have hlt : i < s.queue.length := (findIdx?_eq_some_iff_findIdx_eq.1 hi).1
    exact ⟨by simp only [evalAll, Cmd.eval, if_pos hlt, bind_some], rfl⟩

end

/-! ### The acts -/

/-- The content that is passed to `SendMessage` has the length that its header says. -/
def Act.Measured (L : Layout) : Act → Prop
  | .send _ h c => (L.bytes c).length = h.length
  | _ => True

instance (L : Layout) (a : Act) : Decidable (a.Measured L) :=
  match a with
  | .send _ h c => inferInstanceAs (Decidable ((L.bytes c).length = h.length))
  | .btSend .. | .btRecv .. | .btRecvFiltered .. | .btNextMsg .. | .btNextMsgFiltered ..
  | .btContent .. | .btAck .. | .btSubscribe .. | .btUnsubscribe .. | .kernelEvent ..
  | .clearMessages .. | .newProcess .. | .setStatus .. | .abort .. | .go .. => .isTrue trivial

section Acts

variable {L : Layout} {w : World} {s : Shelf} {b : Book}

theorem After.pc_carried (k : After) : k.pc.carried = none := by
  cases k <;> rfl

section

variable (h : Booked L w s b)
include h

/-- The receipts for a header, from a manager whose queue is part of that of `w`. -/
theorem Booked.receipts (s₁ : State) (hd : MsgHeader)
    (hidle : (w.pc t).carried = none) (hk' : k.carried = none) (hsub : s₁.messages ⊆ w.mgr.messages)
    (hissued : s₁.issued = w.mgr.issued) (hcounter : s₁.idCounter = w.mgr.idCounter)
    (hb : (sendMessageReciept s₁ hd).issued < 2 ^ 64) :
    evalAll L (receiptCommands t s₁ hd) { s with queue := s₁.messages } =
        some { s with queue := (sendMessageReciept s₁ hd).messages } ∧
      Moved L t w (sendMessageReciept s₁ hd) k s { s with queue := (sendMessageReciept s₁ hd).messages }
        b (recordAll L (receiptCommands t s₁ hd) b) := by
  have hk : s.vars (.sender t) = none := (h.senders t).trans hidle
  have hc : s₁.idCounter = s₁.issued := by rw [hcounter, hissued, h.tidy.counter]
  obtain ⟨heval, hent⟩ := postCommands_spec (wantsReceipt hd) KernelMessage.messageReceipt
    (c := .header { hd with length := 0 }) (L.size _)
    s₁.subscribers s₁ { s with queue := s₁.messages } b rfl hk hc hb
  exact ⟨heval, h.posted s₁ hidle hk' hsub hissued hent rfl⟩

theorem Booked.go (hat : w.pc t = k)
    (hr : advance w.mgr k = some (s', k', new)) (hb : s'.issued < 2 ^ 64) :
    ∃ sh', evalAll L (goCommands t w.mgr k) s = some sh' ∧
      Moved L t w s' k' s sh' b (recordAll L (goCommands t w.mgr k) b) := by
  have hc : (w.pc t).carried = k.carried := by rw [hat]
  cases k with
  | idle => cases hr
  | sendCheck msg =>
    simp only [advance] at hr
    by_cases hmiss : destinationMissing w.mgr msg = true
    · rw [if_pos hmiss] at hr
      cases hr
      rw [goCommands, if_pos hmiss]
      exact h.dropped hc rfl
    · rw [if_neg hmiss] at hr
      rw [goCommands, if_neg hmiss]
      refine ⟨s, rfl, ?_⟩
      split at hr <;> cases hr <;> exact h.same rfl hc.symm (by intros; contradiction)
  | sendReply msg =>
    simp only [advance, markReplied_eq] at hr
    by_cases href : replyRefused w.mgr msg = true
    · rw [if_pos href] at hr
      cases hr
      rw [goCommands, if_pos href]
      exact h.dropped hc rfl
    · rw [if_neg href] at hr
      cases hr
      rw [goCommands, if_neg href]
      exact ⟨s, rfl, h.same rfl hc.symm (by intros; contradiction)⟩
  | sendNumber msg =>
    cases hr
    exact h.number hat hb
  | sendAdd msg =>
    simp only [advance] at hr
    split at hr
    · rename_i hadd
      cases hr
      refine ⟨s, by simp [goCommands, hadd, evalAll], ?_⟩
      simp only [goCommands, hadd, isSome_none, Bool.false_eq_true, if_false]
      refine h.same rfl hc.symm ?_
      intro m hm
      rw [hat]
      exact hm
    · rename_i hadd
      cases hr
      simp only [goCommands, hadd, isSome_some, if_true]
      exact h.push hat hadd
  | sendBlocked msg =>
    simp only [advance] at hr
    split at hr
    · cases hr
    · cases hr
      refine ⟨s, rfl, h.same rfl hc.symm ?_⟩
      intro m hm
      rw [hat]
      exact hm
  | receipt hd k =>
    cases hr
    obtain ⟨heval, hmoved⟩ := h.receipts w.mgr hd hc k.pc_carried
      (List.Subset.refl _) rfl rfl hb
    rw [← h.queue] at heval
    exact ⟨_, heval, hmoved⟩
  | await p =>
    obtain ⟨⟨s1, hd⟩, hrec, heq⟩ := map_eq_some_iff.1 hr
    cases heq
    refine ⟨s, rfl, h.same_of_none ?_ hc rfl⟩
    rcases recieveMessageWith_cases hrec with rfl | ⟨m, -, -, rfl⟩ <;> rfl
  | awaitCurrent p f =>
    refine ⟨s, rfl, ?_⟩
    simp only [advance] at hr
    split at hr <;> cases hr <;> exact h.same_of_none rfl hc rfl
  | awaitFiltered p f =>
    simp only [advance] at hr
    split at hr <;> cases hr
    exact ⟨s, rfl, h.same_of_none rfl hc rfl⟩

theorem Booked.acknowledged (hidle : (w.pc t).carried = none) :
    ∃ sh', evalAll L (eraseCommands (hasID hd.id) w.mgr.messages) s = some sh' ∧
      Moved L t w (acknowledgeMessage w.mgr p hd k).1 (acknowledgeMessage w.mgr p hd k).2 s sh' b
        (recordAll L (eraseCommands (hasID hd.id) w.mgr.messages) b) := by
  obtain ⟨heval, hrec⟩ := evalAll_erase (hasID hd.id) s b
  rw [h.queue] at heval hrec
  have hmsgs : (acknowledgeMessage w.mgr p hd k).1.messages = w.mgr.messages.eraseP (hasID hd.id) := by
    unfold acknowledgeMessage
    by_cases hhave : haveMessage w.mgr hd.id = true
    · rw [if_pos hhave]
      show (acknowledge w.mgr p hd.id).messages = _
      unfold acknowledge
      split <;> rfl
    · rw [if_neg hhave]
      refine (eraseP_of_forall_not ?_).symm
      intro m hm hid
      exact hhave (any_eq_true.2 ⟨m, hm, hid⟩)
  rw [hrec]
  refine ⟨_, heval, h.posted (acknowledgeMessage w.mgr p hd k).1 hidle
    (acknowledgeMessage_carried w.mgr p hd k) ?_ ?_ (Entered.refl ..) (by rw [hmsgs])⟩
  · rw [hmsgs]
    exact eraseP_subset
  · unfold acknowledgeMessage acknowledge
    split
    · split <;> rfl
    · rfl

theorem Booked.cleared (hidle : (w.pc t).carried = none)
    (hb : (clearMessages w.mgr p).issued < 2 ^ 64) :
    ∃ sh', evalAll L (commands w (.clearMessages t p)) s = some sh' ∧
      Moved L t w (clearMessages w.mgr p) .idle s sh' b (recordAll L (commands w (.clearMessages t p)) b) := by
  obtain ⟨heval, hrec⟩ := evalAll_erase (L := L) (concerns p) s b
  rw [h.queue] at heval hrec
  simp only [commands, evalAll_append, heval, recordAll_append, hrec, bind_some]
  rcases clearQueue_cases w.mgr p with ⟨msg, hf, hto, heq⟩ | ⟨hno, heq⟩ <;> rw [clearMessages, heq] at hb ⊢
  · simp only [hf, if_pos hto]
    obtain ⟨heval', hmoved⟩ := h.receipts (k := .idle)
      { w.mgr with messages := w.mgr.messages.eraseP (concerns p) } msg.header hidle rfl
      eraseP_subset rfl rfl hb
    exact ⟨_, heval', { hmoved with }⟩
  · have hmoved : Moved L t w _ .idle s _ b b := h.posted (clearSubscriptions
      { w.mgr with messages := w.mgr.messages.eraseP (concerns p) } p)
      hidle rfl eraseP_subset rfl (Entered.refl ..) rfl
    split
    · rename_i msg hf
      rw [if_neg (hno msg hf)]
      exact ⟨_, rfl, hmoved⟩
    · exact ⟨_, rfl, hmoved⟩

theorem Booked.enter
    (hidle : w.pc a.thread = .idle) (hr : enter w.mgr a = some (s', k')) (hm : a.Measured L)
    (hb : s'.issued < 2 ^ 64) : ∃ sh', evalAll L (commands w a) s = some sh' ∧
      Moved L a.thread w s' k' s sh' b (recordAll L (commands w a) b) := by
  have hc : (w.pc a.thread).carried = none := by rw [hidle]; rfl
  cases a with
  | send t hd c =>
    cases hr
    exact h.construct hc rfl hm
  | btSend t p hd bytes =>
    obtain ⟨hlen, hr⟩ := ite_none_left_eq_some.1 hr
    rw [commands]
    split at hr
    · rename_i hmax
      cases hr
      rw [if_pos hmax]
      exact ⟨s, rfl, h.same_of_none rfl hc rfl⟩
    · rename_i hmax
      cases hr
      rw [if_neg hmax]
      exact h.construct hc rfl (not_not.1 hlen)
  | btRecv t p block | btRecvFiltered t p f block =>
    refine ⟨s, rfl, ?_⟩
    simp only [Messaging.enter] at hr
    split at hr
    · cases hr
      exact h.same_of_none rfl hc rfl
    · cases hr
      exact h.same_of_none (polled_messages _ w.mgr p) hc rfl
  | btNextMsg t p hd | btNextMsgFiltered t p f hd | btAck t p hd =>
    obtain ⟨rfl, rfl⟩ := Prod.mk.inj (Option.some.inj hr)
    exact h.acknowledged hc
  | btSubscribe t p message =>
    cases hr
    refine ⟨s, rfl, h.same_of_none ?_ hc rfl⟩
    unfold subscribe
    split <;> rfl
  | kernelEvent t message content =>
    cases hr
    obtain ⟨heval, hent⟩ := postCommands_spec (fun sub => sub.2 == message) message
      (c := .bytes content) rfl w.mgr.subscribers w.mgr s b h.queue
      ((h.senders t).trans hc) h.tidy.counter hb
    exact ⟨_, heval, h.posted w.mgr hc rfl (List.Subset.refl _) rfl hent rfl⟩
  | clearMessages t p =>
    cases hr
    exact h.cleared hc hb
  | btContent t p hd | btUnsubscribe t p message | newProcess t p cid | setStatus t p st =>
    cases hr
    exact ⟨s, rfl, h.same_of_none rfl hc rfl⟩
  | abort t | go t => cases hr

/-- **The step lemma**: an act takes values and book to those of the next state. -/
theorem Booked.step (hs : step w a = some w')
    (hm : a.Measured L) (hb : w'.mgr.issued < 2 ^ 64) :
    ∃ s', evalAll L (commands w a) s = some s' ∧ Booked L w' s' (recordAll L (commands w a) b) := by
  have htidy := h.tidy.step hs hb
  have hle := issued_le hs
  rcases step_inv hs with ⟨t, mgr, k', new, rfl, hr, rfl⟩ | ⟨t, rfl, hab, rfl⟩ | ⟨hidle, mgr, k', hr, rfl⟩
  · obtain ⟨s', heval, hmoved⟩ := h.go rfl hr hb
    exact ⟨s', heval, h.of_moved hmoved htidy rfl hle⟩
  · have hc : (w.pc t).carried = none := by
      cases hpc : w.pc t with
      | await | awaitFiltered => rfl
      | idle | sendCheck | sendReply | sendNumber | sendAdd | sendBlocked | receipt
      | awaitCurrent =>
        rw [hpc] at hab
        cases hab
    exact ⟨s, rfl, h.of_moved (h.same_of_none rfl hc (show Pc.idle.carried = none from rfl)) htidy rfl hle⟩
  · obtain ⟨s', heval, hmoved⟩ := h.enter hidle hr hm hb
    exact ⟨s', heval, h.of_moved hmoved htidy rfl hle⟩

end

end Acts

end Btos.Kernel.Messaging
