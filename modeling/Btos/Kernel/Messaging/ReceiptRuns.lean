import Btos.Kernel.Messaging.Receipts

/-!
# Every removal is followed up

The run theorem for the ledger of `Btos.Kernel.Messaging.Receipts`, in which a removal waits until its thread
has sent the receipt.  Other threads can run in between: they may subscribe, unsubscribe, end and acknowledge.

* `Audit.of_thread` — **what is to be shown after a step of one thread**; the cases
  `Audit.acknowledged`, `Audit.receipted`, `Audit.cleared` and `Audit.quiet` follow the kinds of steps.
-/

namespace Btos.Kernel.Messaging

open Lib.Transition Function List Option

/-! ### The invariant -/

structure Audit (l : Ledger) : Prop where
  tidy : Tidy l.world
  subscribers : l.world.mgr.subscribers.Nodup
  /-- A thread has a pending removal exactly while it is about to send a receipt. -/
  pending : ∀ t i, l.pending t = some i → ∃ h k, l.world.pc t = .receipt h k
  waiting : ∀ t h k, l.world.pc t = .receipt h k →
    ∃ i r, l.removals[i]? = some r ∧ l.Waits i r ∧ r.act.thread = t
  removals : ∀ i r, l.removals[i]? = some r → r.Followed ∨ l.Waits i r

theorem settle_eq (h : ∀ t, a = .go t → l.pending t = none) : settle l s' a = l.removals := by
  cases a with
  | go t => rw [settle, h t rfl]
  | send | btSend | btRecv | btRecvFiltered | btNextMsg | btNextMsgFiltered | btContent | btAck
  | btSubscribe | btUnsubscribe | kernelEvent | clearMessages | newProcess | setStatus | abort => rfl

theorem Ledger.Waits.ne {l : Ledger} {i : ℕ} {r : Removal} {t : ℕ} (h : l.Waits i r)
    (ht : ∀ hd k, l.world.pc t ≠ .receipt hd k) : r.act.thread ≠ t := by
  obtain ⟨-, -, -, p, hd, k, -, -, hat⟩ := h
  rintro rfl
  exact ht hd k hat

section Others

variable {l l' : Ledger} {t : ℕ} {k' : Pc} {o : Option ℕ}

theorem Ledger.Waits.of_other (h : l.Waits i r) (ht : r.act.thread ≠ t)
    (hpc : l'.world.pc = update l.world.pc t k')
    (hpend : l'.pending = update l.pending t o) : l'.Waits i r := by
  obtain ⟨hout, hq, hp, p, hd, k', ha, hid, hat⟩ := h
  refine ⟨hout, hq, ?_, p, hd, k', ha, hid, ?_⟩
  · rw [hpend, update_of_ne ht]
    exact hp
  · rw [hpc, update_of_ne ht]
    exact hat

/-- The invariant after a step of thread `t`: what it says of the other threads is as before, so it is
enough to look at `t` and at the removals. -/
theorem Audit.of_thread (ha : Audit l) (hpc : l'.world.pc = update l.world.pc t k')
    (hpend : l'.pending = update l.pending t o) (htidy : Tidy l'.world) (hsubs : l'.world.mgr.subscribers.Nodup)
    (hkept : ∀ i r, l.removals[i]? = some r → l.Waits i r → r.act.thread ≠ t → l'.removals[i]? = some r)
    (hnone : (∀ h k, k' ≠ .receipt h k) → o = none) (hsome : ∀ h k, k' = .receipt h k →
      ∃ i r, l'.removals[i]? = some r ∧ l'.Waits i r ∧ r.act.thread = t)
    (hrem : ∀ i r, l'.removals[i]? = some r →
      r.Followed ∨ l'.Waits i r ∨ l.Waits i r ∧ r.act.thread ≠ t) : Audit l' where
  tidy := htidy
  subscribers := hsubs
  pending u i hu := by
    rw [hpend] at hu
    rw [hpc]
    by_cases hut : u = t
    · subst hut
      rw [update_self] at hu ⊢
      by_contra hnot
      have ho := hnone fun h k heq => hnot ⟨h, k, heq⟩
      rw [ho] at hu
      cases hu
    · rw [update_of_ne hut] at hu ⊢
      exact ha.pending u i hu
  waiting u h k hu := by
    rw [hpc] at hu
    by_cases hut : u = t
    · subst hut
      rw [update_self] at hu
      exact hsome h k hu
    · rw [update_of_ne hut] at hu
      obtain ⟨i, r, hi, hw, rfl⟩ := ha.waiting u h k hu
      exact ⟨i, r, hkept i r hi hw hut, hw.of_other hut hpc hpend, rfl⟩
  removals i r hi := by
    rcases hrem i r hi with hf | hw | ⟨hw, hne⟩
    · exact .inl hf
    · exact .inr hw
    · exact .inr (hw.of_other hne hpc hpend)

/-- One removal by thread `t` is entered behind the others. -/
theorem Audit.entered (ha : Audit l) (hpc : l'.world.pc = update l.world.pc t k')
    (hpend : l'.pending = update l.pending t o) (htidy : Tidy l'.world)
    (hsubs : l'.world.mgr.subscribers.Nodup) (ht : ∀ h k, l.world.pc t ≠ .receipt h k)
    {x : Removal} (hrem : l'.removals = l.removals ++ [x]) (hx : x.Followed ∨ l'.Waits l.removals.length x)
    (hnone : (∀ h k, k' ≠ .receipt h k) → o = none)
    (hsome : ∀ h k, k' = .receipt h k → l'.Waits l.removals.length x ∧ x.act.thread = t) : Audit l' := by
  refine ha.of_thread hpc hpend htidy hsubs ?_ hnone ?_ ?_
  · intro i r hi _ _
    rw [hrem, List.getElem?_append_left (List.getElem?_eq_some_iff.1 hi).1]
    exact hi
  · intro h k heq
    exact ⟨l.removals.length, x, by rw [hrem, getElem?_concat_length], hsome h k heq⟩
  · intro i r hi
    rw [hrem] at hi
    rcases Nat.lt_or_ge i l.removals.length with hlt | hge
    · rw [getElem?_append_left hlt] at hi
      rcases ha.removals i r hi with hf | hw
      · exact .inl hf
      · exact .inr (.inr ⟨hw, hw.ne ht⟩)
    · rw [getElem?_append_right hge, getElem?_singleton] at hi
      split at hi
      · cases hi
        have hlen : i = l.removals.length := by omega
        rw [hlen]
        exact hx.imp id .inl
      · cases hi

end Others

section Steps

variable {l l' : Ledger} {a : Act} {w : World}

theorem Audit.quiet (ha : Audit l) {k' : Pc} (htidy : Tidy w)
    (hpc : w.pc = update l.world.pc a.thread k') (hk' : ∀ h k, k' ≠ .receipt h k)
    (hk : ∀ h k, l.world.pc a.thread ≠ .receipt h k) (hkeep : l.world.mgr.messages ⊆ w.mgr.messages)
    (hsubs : l.world.mgr.subscribers.Nodup → w.mgr.subscribers.Nodup) : Audit (l.after a w) := by
  have hout := wentOut_nil hkeep
  have hrem : (l.after a w).removals = l.removals := by
    have hsettle : settle l w.mgr a = l.removals := by
      refine settle_eq ?_
      rintro t rfl
      cases hp : l.pending t with
      | none => rfl
      | some i =>
        obtain ⟨h, k, hat⟩ := ha.pending t i hp
        exact absurd hat (hk h k)
    show settle l w.mgr a ++ _ = _
    rw [hsettle, hout, map_nil, append_nil]
  have hpend : (l.after a w).pending = update l.pending a.thread none := by
    show update _ _ _ = _
    rw [hout]
    simp
  refine ha.of_thread hpc hpend htidy (hsubs ha.subscribers) ?_ (fun _ => rfl) ?_ ?_
  · intro i r hi _ _
    rw [hrem]
    exact hi
  · intro h k heq
    exact absurd heq (hk' h k)
  · intro i r hi
    rw [hrem] at hi
    rcases ha.removals i r hi with hf | hw
    · exact .inl hf
    · exact .inr (.inr ⟨hw, hw.ne hk⟩)

/-- An act that is not a section of a running call enters its removals behind the others. -/
theorem after_removals (hgo : ∀ t, a ≠ .go t) (hout : wentOut l.world.mgr w.mgr = [m]) :
    (l.after a w).removals = l.removals ++ [entry l.world.mgr w.mgr a m] := by
  have hsettle : settle l w.mgr a = l.removals := settle_eq fun t heq => absurd heq (hgo t)
  show settle l w.mgr a ++ _ = _
  rw [hsettle, hout]
  rfl

theorem Audit.acknowledged (ha : Audit l)
    (htidy : Tidy w) (hb : w.mgr.issued < 2 ^ 64) (hack : a.acknowledges = some (p, h, k))
    (hm : getMessage l.world.mgr h.id = some m) (hidle : l.world.pc a.thread = .idle)
    (hmgr : w.mgr = acknowledge l.world.mgr p h.id)
    (hpc : w.pc = update l.world.pc a.thread (.receipt h k)) : Audit (l.after a w) := by
  obtain ⟨hmsgs, hsubs, hissued⟩ : w.mgr.messages = l.world.mgr.messages.eraseP (Message.hasID h.id) ∧
      w.mgr.subscribers = l.world.mgr.subscribers ∧ w.mgr.issued = l.world.mgr.issued := by
    rw [hmgr]
    unfold acknowledge
    split <;> exact ⟨rfl, rfl, rfl⟩
  have hout : wentOut l.world.mgr w.mgr = [m] :=
    wentOut_eq ha.tidy hm (Posted.refl _) (by rw [hissued] at hb; exact hb)
      (hmsgs.trans (append_nil _).symm)
  have hrem := after_removals (a := a) (by rintro t rfl; cases hack) hout
  have hpend : (l.after a w).pending = update l.pending a.thread (some l.removals.length) := by
    show update _ _ _ = _
    rw [hout, hack]
    rfl
  have hcame : cameIn l.world.mgr w.mgr = [] :=
    cameIn_eq ha.tidy eraseP_subset (Posted.refl _) (by rw [hissued] at hb; exact hb)
      (hmsgs.trans (append_nil _).symm)
  have hentry : entry l.world.mgr w.mgr a m = ⟨m, a, [], none⟩ := by
    rw [entry, hack, hcame]
    rfl
  have hlast : (l.after a w).Waits l.removals.length ⟨m, a, [], none⟩ := by
    refine ⟨rfl, rfl, ?_, p, h, k, hack, (getMessage_some hm).2.symm, ?_⟩
    · rw [hpend, update_self]
    · show w.pc a.thread = _
      rw [hpc, update_self]
  rw [hentry] at hrem
  refine ha.entered hpc hpend htidy ?_ (Pc.ne_receipt_of_idle hidle) hrem (.inr hlast) ?_ ?_
  · show w.mgr.subscribers.Nodup
    rw [hsubs]
    exact ha.subscribers
  · intro hnot
    exact absurd rfl (hnot h k)
  · intro hd k' _
    exact ⟨hlast, rfl⟩

/-- `ClearMessages` removes at most one message, and follows it up at once. -/
theorem clearMessages_cases (ha : Audit l) (hb : (clearMessages l.world.mgr p).issued < 2 ^ 64) :
    (l.world.mgr.messages ⊆ (clearMessages l.world.mgr p).messages ∨
      ∃ m, concerns p m = true ∧ wentOut l.world.mgr (clearMessages l.world.mgr p) = [m] ∧
        if m.header.toPid = p then (outcome l.world.mgr (clearMessages l.world.mgr p)).Exactly m
        else (outcome l.world.mgr (clearMessages l.world.mgr p)).queued = []) ∧
    (clearMessages l.world.mgr p).subscribers.Nodup := by
  have hsub : (clearMessages l.world.mgr p).subscribers.Nodup := by
    show ((clearQueue l.world.mgr p).subscribers.eraseP _).Nodup
    obtain ⟨rs, hp, -⟩ := clearQueue_spec l.world.mgr p
    rw [hp.subscribers]
    exact ha.subscribers.sublist eraseP_sublist
  refine ⟨?_, hsub⟩
  cases hf : l.world.mgr.messages.find? (concerns p) with
  | none =>
    left
    show _ ⊆ (clearQueue l.world.mgr p).messages
    rw [clearQueue, hf]
    exact List.Subset.refl _
  | some m =>
    right
    -- the receipts, if there is one to be sent
    obtain ⟨rs, hp, hex⟩ : ∃ rs, Posted { l.world.mgr with messages := l.world.mgr.messages.eraseP (concerns p) }
        (clearQueue l.world.mgr p) rs ∧ if m.header.toPid = p then
          Outcome.Exactly ⟨l.world.mgr.subscribers, l.world.mgr.status, rs⟩ m else rs = [] := by
      simp only [clearQueue, hf]
      split
      · obtain ⟨rs, hp, hex⟩ := sendMessageReciept_exactly
          { l.world.mgr with messages := l.world.mgr.messages.eraseP (concerns p) } ha.subscribers
        exact ⟨rs, hp, hex m rfl rfl⟩
      · exact ⟨[], .refl _, rfl⟩
    have hcame : cameIn l.world.mgr (clearMessages l.world.mgr p) = rs :=
      cameIn_eq ha.tidy eraseP_subset hp hb hp.messages
    refine ⟨m, find?_some hf, wentOut_eq ha.tidy hf hp hb hp.messages, ?_⟩
    rw [outcome, hcame]
    exact hex

theorem Audit.cleared (ha : Audit l) (htidy : Tidy w)
    (hb : w.mgr.issued < 2 ^ 64) (hidle : l.world.pc t = .idle)
    (hmgr : w.mgr = clearMessages l.world.mgr p) (hpc : w.pc = update l.world.pc t .idle) :
    Audit (l.after (.clearMessages t p) w) := by
  have hne := Pc.ne_receipt_of_idle hidle
  rw [hmgr] at hb
  obtain ⟨hcases, hsub⟩ := clearMessages_cases ha hb
  rw [← hmgr] at hcases hsub
  rcases hcases with hkeep | ⟨m, hc, hout, hfollow⟩
  · exact ha.quiet htidy hpc (by simp) hne hkeep
      fun _ => hsub
  · refine ha.entered hpc rfl htidy hsub hne
      (after_removals (by simp) hout) (.inl ⟨_, rfl, hc, hfollow⟩) (fun _ => rfl) ?_
    simp

theorem Audit.receipted (ha : Audit l) (htidy : Tidy w)
    (hb : w.mgr.issued < 2 ^ 64) (hat : l.world.pc t = .receipt h k)
    (hmgr : w.mgr = sendMessageReciept l.world.mgr h)
    (hpc : w.pc = update l.world.pc t k.pc) : Audit (l.after (.go t) w) := by
  obtain ⟨i, r, hi, hwaits, rfl⟩ := ha.waiting t h k hat
  obtain ⟨hout, hq, hpend, p, hd, k', hack, hid, hat'⟩ := hwaits
  cases hat.symm.trans hat'
  obtain ⟨rs, hp, hex⟩ := sendMessageReciept_exactly l.world.mgr ha.subscribers
  rw [← hmgr] at hp
  have hcame : cameIn l.world.mgr w.mgr = rs :=
    cameIn_eq ha.tidy (List.Subset.refl _) hp hb hp.messages
  have hkeep : l.world.mgr.messages ⊆ w.mgr.messages := by
    rw [hp.messages]
    exact subset_append_left _ _
  have hrem : (l.after (.go r.act.thread) w).removals =
      l.removals.modify i fun r => { r with outcome := some (outcome l.world.mgr w.mgr) } := by
    show settle l w.mgr _ ++ _ = _
    rw [settle, hpend, wentOut_nil hkeep, map_nil, append_nil]
  have hfollowed : Removal.Followed { r with outcome := some (outcome l.world.mgr w.mgr) } := by
    refine ⟨_, rfl, ?_⟩
    have hexact : h.fromPid = r.message.header.fromPid → (outcome l.world.mgr w.mgr).Exactly r.message := by
      intro hfrom
      rw [outcome, hcame]
      exact hex r.message hid hfrom
    cases hact : r.act <;> rw [hact] at hack <;> cases hack <;> exact ⟨hq, hid, hexact⟩
  refine ha.of_thread hpc rfl htidy ?_ ?_ (fun _ => rfl) ?_ ?_
  · show w.mgr.subscribers.Nodup
    rw [hp.subscribers]
    exact ha.subscribers
  · intro j r' hj hw hne
    rw [hrem]
    have hij : i ≠ j := by
      rintro rfl
      cases hi.symm.trans hj
      exact hne rfl
    simp [hij, hj]
  · intro hd' k'' heq
    exact absurd heq (k.pc_ne_receipt hd' k'')
  · intro j r' hj
    rw [hrem, getElem?_modify] at hj
    by_cases hij : i = j
    · subst hij
      rw [hi] at hj
      simp only [if_pos] at hj
      cases hj
      exact .inl hfollowed
    · simp only [if_neg hij, Option.map_eq_map, Option.map_id'] at hj
      rcases ha.removals j r' hj with hf | hw
      · exact .inl hf
      · refine .inr (.inr ⟨hw, ?_⟩)
        intro hthread
        have hpend' := hw.2.2.1
        rw [hthread, hpend] at hpend'
        exact hij (Option.some.inj hpend')

/-- **The step lemma.** -/
theorem Audit.step (ha : Audit l) (hs : ledgerStep l a = some l')
    (hb : l'.world.mgr.issued < 2 ^ 64) : Audit l' := by
  obtain ⟨w, hw, rfl⟩ := map_eq_some_iff.1 hs
  have htidy : Tidy w := ha.tidy.step hw hb
  cases step_kinds hw with
  | acknowledged p h k m hack hm hidle hmgr hpc =>
    exact ha.acknowledged htidy hb hack hm hidle hmgr hpc
  | receipted t h k heq hat hmgr hpc =>
    subst heq
    exact ha.receipted htidy hb hat hmgr hpc
  | cleared t p heq hidle hmgr hpc =>
    subst heq
    exact ha.cleared htidy hb hidle hmgr hpc
  | quiet k' hpc hk' hk hkeep hsubs => exact ha.quiet htidy hpc hk' hk hkeep hsubs

end Steps

theorem Audit.open (status : Pid → ProcStatus) (cur : Pid → ℕ) (junk : ℕ) :
    Audit (openLedger status cur junk) where
  tidy := Tidy.init status cur junk
  subscribers := nodup_nil
  pending t i h := by cases h
  waiting t h k hat := by cases hat
  removals i r hi := by cases hi

/-- **Every removal is followed up.**  In every run in which the id counter does not wrap, each message
that has left the queue was taken by `AcknowledgeMessage` or `ClearMessages`; and either the thread
that acknowledged it has queued nothing and is about to send its receipt, or that has been done as
`Removal.Followed` says. -/
theorem receipts_accounted {status : Pid → ProcStatus} {cur : Pid → ℕ} {junk : ℕ} {l : Ledger}
    (h : Reach ledgerStep anyStep (openLedger status cur junk) l) (hb : l.world.mgr.issued < 2 ^ 64) :
    ∀ i r, l.removals[i]? = some r → r.Followed ∨ l.Waits i r := by
  have haudit : Audit l := by
    refine h.invariant (fun l => l.world.mgr.issued < 2 ^ 64 → Audit l) ?_ ?_ hb
    · intro _
      exact Audit.open status cur junk
    · intro l a l' ih _ hs hb'
      obtain ⟨w, hw, heq⟩ := map_eq_some_iff.1 hs
      have hle : l.world.mgr.issued ≤ l'.world.mgr.issued := by
        rw [← heq]
        exact issued_le hw
      exact (ih (Nat.lt_of_le_of_lt hle hb')).step hs hb'
  exact haudit.removals

/-- Process 2 acknowledges the message, and process 3 has its receipt. -/
theorem receipts_accounted_acknowledged :
    ∃ l, exec ledgerStep (openLedger (fun _ => .running) (fun _ => 0) 0)
        (subscribedPost ++ [.btAck 2 2 (userMessage 1 3 2).header, .go 2]) = some l ∧
      l.world.mgr.messages.map (fun m => m.header.toPid) = [3] ∧
      l.removals.length = 1 ∧ ∀ i r, l.removals[i]? = some r → r.Followed ∨ l.Waits i r := by
  refine ⟨_, rfl, by decide, by decide, ?_⟩
  have hreach := Reach.of_exec ledgerStep anyStep
    (subscribedPost ++ [.btAck 2 2 (userMessage 1 3 2).header, .go 2])
    (openLedger (fun _ => .running) (fun _ => 0) 0) rfl (guarded_anyStep _ _ _)
  exact receipts_accounted hreach (by decide)

/-- **Receipts that go astray.**  Process 2 acknowledges with a header that names process 4 as the
sender, and the receipt goes to process 4; process 3 is cleared, and its message leaves the queue
without a receipt. -/
theorem receipts_astray :
    (∃ l r o, exec ledgerStep (openLedger (fun _ => .running) (fun _ => 0) 0)
        (subscribedPost ++ [.btAck 2 2 (userMessage 1 4 2).header, .go 2]) = some l ∧
      l.removals = [r] ∧ r.outcome = some o ∧ r.message.header.fromPid = 3 ∧ o.Due r.message ∧
      o.queued.map (fun m => m.header.toPid) = [4]) ∧
    ∃ l r o, exec ledgerStep (openLedger (fun _ => .running) (fun _ => 0) 0)
        (subscribedPost ++ [.clearMessages 0 3]) = some l ∧
      l.removals = [r] ∧ r.outcome = some o ∧ r.message.header.fromPid = 3 ∧ o.Due r.message ∧
      o.queued = [] := by
  constructor
  · refine ⟨_, _, _, rfl, rfl, rfl, rfl, ⟨by decide, ?_⟩, by decide⟩
    exact ProcStatus.noConfusion
  · refine ⟨_, _, _, rfl, rfl, rfl, rfl, ⟨by decide, ?_⟩, by decide⟩
    exact ProcStatus.noConfusion

end Btos.Kernel.Messaging
