import Btos.Kernel.Messaging.System

/-!
# The queue: distinct ids and one message per sender and destination

`SendMessage` takes the id of its message in one critical section (`NextID`) and queues the message
in a later one (`AddMessage`), and a sender whose slot is taken sleeps and tries again.  Still, in
every run in which the 64-bit counter does not wrap:

* queued messages have distinct ids, none of them 0;
* a process other than the kernel has at most one non-reply queued for each destination;
* no id is ever used twice (`accepted_distinct`).

The invariant `Tidy` also speaks about the messages that are numbered but not queued: their ids are
used by no queued message and by no other thread.  `Tidy.step` is the step lemma, over the three
cases of `step_cases`; `issued_lt` carries the assumption on the counter back along the run.
-/

namespace Btos.Kernel.Messaging

open Lib.Transition Function List Bool

/-- A non-reply from `f` to `d`. -/
def inSlot (f d : Pid) (m : Message) : Bool := !m.header.isReply && m.header.fromPid == f && m.header.toPid == d

/-- What holds of the queue and of the messages about to be queued. -/
structure Tidy (w : World) : Prop where
  counter : w.mgr.idCounter = w.mgr.issued
  ids : ∀ m ∈ w.mgr.messages, 0 < m.header.id ∧ m.header.id ≤ w.mgr.issued
  distinct : (w.mgr.messages.map fun m => m.header.id).Nodup
  slots : ∀ f d, f ≠ 0 → w.mgr.messages.countP (inSlot f d) ≤ 1
  handIds : ∀ t msg, (w.pc t).inHand = some msg → 0 < msg.header.id ∧ msg.header.id ≤ w.mgr.issued ∧
      ∀ m ∈ w.mgr.messages, m.header.id ≠ msg.header.id
  handDistinct : ∀ t u msg msg', t ≠ u → (w.pc t).inHand = some msg →
    (w.pc u).inHand = some msg' → msg.header.id ≠ msg'.header.id

/-! ### One step -/

variable {w w' : World} {msg : Message}

theorem Turn.inHand (h : Turn s k k') (hm : k'.inHand = some msg) : k.inHand = some msg := by
  cases h with
  | called | plain | reply | allowed => cases hm
  | blocks | wakes => exact hm
  | free _ _ hfree => cases k' <;> cases hm <;> cases hfree

theorem inHand_of_turn (hpc : w'.pc = update w.pc t k')
    (hturn : Turn w.mgr (w.pc t) k') (hm : (w'.pc u).inHand = some msg) : (w.pc u).inHand = some msg := by
  rw [hpc] at hm
  by_cases hu : u = t
  · subst hu
    rw [update_self] at hm
    exact hturn.inHand hm
  · rwa [update_of_ne hu] at hm

theorem countP_inSlot_kernel (hf : f ≠ 0) {rs : List Message}
    (h : ∀ m ∈ rs, m.header.fromPid = 0) : rs.countP (inSlot f d) = 0 := by
  rw [countP_eq_zero]
  intro m hm hslot
  simp only [inSlot, and_eq_true, beq_iff_eq] at hslot
  exact hf (hslot.1.2.symm.trans (h m hm))

/-- **Messages go, kernel messages come**, and one thread may have got a number. -/
theorem Tidy.reshaped {gone : Message → Prop} (h : Tidy w)
    (hre : Reshaped gone w.mgr w'.mgr) (hb : w'.mgr.issued < 2 ^ 64)
    (hhand : ∀ u m, (w'.pc u).inHand = some m → (w.pc u).inHand = some m ∨
      u = t ∧ w.mgr.issued < m.header.id ∧ m.header.id ≤ w'.mgr.issued ∧
        ∀ q ∈ w'.mgr.messages, q.header.id ≠ m.header.id) : Tidy w' := by
  obtain ⟨l, rs, s1, hsub, -, hp, hm, hi, hc⟩ := hre
  have hb1 : s1.issued < 2 ^ 64 := hi ▸ hb
  have hfresh := hp.fresh hb1 h.counter
  have hle : w.mgr.issued ≤ w'.mgr.issued := hi ▸ hp.issued_le
  have hmem : ∀ m ∈ w'.mgr.messages, m ∈ w.mgr.messages ∨ m ∈ rs := by
    intro m hm'
    rw [hm, hp.messages] at hm'
    exact (mem_append.1 hm').imp (fun h => hsub.subset h) id
  refine ⟨?_, ?_, ?_, ?_, ?_, ?_⟩
  · rw [hc, hi]
    exact hp.counter hb1 h.counter
  · intro m hm'
    rcases hmem m hm' with hold | hnew
    · exact ⟨(h.ids m hold).1, Nat.le_trans (h.ids m hold).2 hle⟩
    · have := hfresh m hnew
      exact ⟨Nat.lt_of_le_of_lt (Nat.zero_le _) this.1, hi ▸ this.2⟩
  · rw [hm, hp.messages, map_append, nodup_append]
    refine ⟨h.distinct.sublist (hsub.map _), hp.distinct hb1 h.counter, ?_⟩
    -- an old id is at most `issued`, a new one above it
    intro a ha b hb' hab
    obtain ⟨m, hml, rfl⟩ := mem_map.1 ha
    obtain ⟨m', hmr, rfl⟩ := mem_map.1 hb'
    have h1 := (h.ids m (hsub.subset hml)).2
    have h2 := (hfresh m' hmr).1
    exact absurd hab (Nat.ne_of_lt (Nat.lt_of_le_of_lt h1 h2))
  · intro f d hf
    rw [hm, hp.messages, countP_append, countP_inSlot_kernel hf fun m hm' => (hp.fromKernel m hm').1]
    exact Nat.le_trans (hsub.countP_le) (h.slots f d hf)
  · intro u msg hu
    rcases hhand u msg hu with hold | ⟨-, hgt, hle', hne⟩
    · obtain ⟨h0, hle', hne⟩ := h.handIds u msg hold
      refine ⟨h0, Nat.le_trans hle' hle, ?_⟩
      intro m hm'
      rcases hmem m hm' with hold | hnew
      · exact hne m hold
      · exact (Nat.ne_of_lt (Nat.lt_of_le_of_lt hle' (hfresh m hnew).1)).symm
    · exact ⟨Nat.zero_lt_of_lt hgt, hle', hne⟩
  · intro u v m m' huv hu hv
    rcases hhand u m hu with hold | ⟨hut, hm, -⟩ <;> rcases hhand v m' hv with hold' | ⟨hvt, hm', -⟩
    · exact h.handDistinct u v m m' huv hold hold'
    · have := h.handIds u m hold
      omega
    · have := h.handIds v m' hold'
      omega
    · exact absurd (hut.trans hvt.symm) huv

/-- **A message gets its number.** -/
theorem Tidy.numbers (h : Tidy w) (hmgr : w'.mgr = (nextID w.mgr).1)
    (hpc : w'.pc = update w.pc t (.sendAdd (msg.withID (nextID w.mgr).2)))
    (hb : w'.mgr.issued < 2 ^ 64) : Tidy w' := by
  have hp := nextID_posted w.mgr
  rw [← hmgr] at hp
  have hissued : w'.mgr.issued = w.mgr.issued + 1 := by rw [hmgr]; rfl
  have hid : (nextID w.mgr).2 = w.mgr.issued + 1 :=
    (nextID_posted w.mgr).counter (by rw [hissued] at hb; exact hb) h.counter
  have hre : Reshaped (fun _ => False) w.mgr w'.mgr := .of_posted hp
  refine h.reshaped (t := t) hre hb ?_
  -- what a thread holds now is the new number, or what it held before
  intro u m hu
  rw [hpc] at hu
  by_cases hut : u = t
  · subst hut
    rw [update_self] at hu
    cases hu
    have hnew : (msg.withID (nextID w.mgr).2).header.id = w.mgr.issued + 1 := hid
    refine .inr ⟨rfl, by omega, by omega, ?_⟩
    intro q hq
    rw [hp.messages, append_nil] at hq
    have := h.ids q hq
    omega
  · rw [update_of_ne hut] at hu
    exact .inl hu

theorem inHand_of_done (hpc : w'.pc = update w.pc t .idle) (hm : (w'.pc u).inHand = some msg) :
    u ≠ t ∧ (w.pc u).inHand = some msg := by
  rw [hpc] at hm
  by_cases hu : u = t
  · subst hu
    rw [update_self] at hm
    cases hm
  · rw [update_of_ne hu] at hm
    exact ⟨hu, hm⟩

/-- **A numbered message is queued.** -/
theorem Tidy.pushes (h : Tidy w) (ht : w.pc t = .sendAdd msg)
    (hadd : addMessage w.mgr msg = some w'.mgr) (hpc : w'.pc = update w.pc t .idle)
    (hb : w'.mgr.issued < 2 ^ 64) : Tidy w' := by
  obtain ⟨hcases, hfree⟩ := addMessage_some hadd
  have hhand : (w.pc t).inHand = some msg := by rw [ht]; rfl
  obtain ⟨h0, hle, hne⟩ := h.handIds t msg hhand
  rcases hcases with hmgr | hmgr
  · -- the destination has gone: the queue is as it was
    have hre : Reshaped (fun _ => False) w.mgr w'.mgr := by
      rw [hmgr]
      exact .refl _
    exact h.reshaped (t := t) hre hb fun u m hu => .inl (inHand_of_done hpc hu).2
  · have hmsgs : w'.mgr.messages = w.mgr.messages ++ [msg] := by rw [hmgr]
    have hissued : w'.mgr.issued = w.mgr.issued := by rw [hmgr]
    refine ⟨by rw [hmgr]; exact h.counter, ?_, ?_, ?_, ?_, ?_⟩
    · intro m hm
      rw [hmsgs, mem_append, mem_singleton] at hm
      rw [hissued]
      rcases hm with hm | rfl
      · exact h.ids m hm
      · exact ⟨h0, hle⟩
    · rw [hmsgs, map_append, nodup_append]
      refine ⟨h.distinct, pairwise_singleton _ _, ?_⟩
      intro a ha b hb hab
      obtain ⟨m, hm, rfl⟩ := mem_map.1 ha
      rw [map_singleton, mem_singleton] at hb
      exact hne m hm (hab.trans hb)
    · intro f d hf
      rw [hmsgs, countP_append]
      by_cases hslot : inSlot f d msg = true
      · -- the new message takes the slot, so `AddMessage` found it empty
        have hs := hslot
        simp only [inSlot, and_eq_true, not_eq_true', beq_iff_eq] at hs
        obtain ⟨⟨hreply, hfrom⟩, hto⟩ := hs
        have hzero : w.mgr.messages.countP (inSlot f d) = 0 := by
          rw [countP_eq_zero]
          intro m hm hslot'
          have := hfree (by rw [hfrom]; exact hf) hreply m hm
          rw [occupies, hfrom, hto] at this
          rw [inSlot] at hslot'
          rw [this] at hslot'
          cases hslot'
        exact Nat.le_of_eq (by rw [hzero, countP_singleton, if_pos hslot])
      · rw [countP_singleton, if_neg hslot]
        exact h.slots f d hf
    · intro u m hu
      obtain ⟨hut, hold⟩ := inHand_of_done hpc hu
      obtain ⟨h0', hle', hne'⟩ := h.handIds u m hold
      rw [hmsgs, hissued]
      refine ⟨h0', hle', ?_⟩
      intro q hq
      rcases mem_append.1 hq with hq | hq
      · exact hne' q hq
      · rw [mem_singleton.1 hq]
        exact h.handDistinct t u msg m (Ne.symm hut) hhand hold
    · intro u v m m' huv hu hv
      exact h.handDistinct u v m m' huv (inHand_of_done hpc hu).2 (inHand_of_done hpc hv).2

/-! ### Whole runs -/

theorem issued_le (h : step w a = some w') : w.mgr.issued ≤ w'.mgr.issued := by
  obtain ⟨k', -, ⟨⟨l, rs, s1, -, -, hp, -, hi, -⟩, -⟩ | ⟨msg, -, hmgr, -⟩ | ⟨msg, -, -, hadd, -⟩⟩ :=
    step_cases h
  · rw [hi]
    exact hp.issued_le
  · rw [hmgr]
    exact Nat.le_succ _
  · rcases (addMessage_some hadd).1 with hmgr | hmgr
    · exact Nat.le_of_eq (by rw [hmgr])
    · exact Nat.le_of_eq (by rw [hmgr])

theorem Tidy.step (h : Tidy w) (hs : step w a = some w') (hb : w'.mgr.issued < 2 ^ 64) : Tidy w' := by
  obtain ⟨k', hpc, ⟨hre, hturn, -⟩ | ⟨msg, -, hmgr, rfl, -⟩ | ⟨msg, ht, rfl, hadd, -⟩⟩ :=
    step_cases hs
  · exact h.reshaped (t := a.thread) hre hb fun u m hu => .inl (inHand_of_turn hpc hturn hu)
  · exact h.numbers hmgr hpc hb
  · exact h.pushes ht hadd hpc hb

theorem Tidy.init (status : Pid → ProcStatus) (cur : Pid → ℕ) (junk : ℕ) : Tidy (init status cur junk) where
  counter := rfl
  ids m hm := absurd hm not_mem_nil
  distinct := nodup_nil
  slots f d _ := Nat.zero_le _
  handIds t msg hm := by cases hm
  handDistinct t u msg msg' _ hm := by cases hm

theorem Tidy.reach (h : Reach Messaging.step ok (Messaging.init status cur junk) w)
    (hb : w.mgr.issued < 2 ^ 64) : Tidy w := by
  refine h.invariant (fun w => w.mgr.issued < 2 ^ 64 → Tidy w) ?_ ?_ hb
  · intro _
    exact Tidy.init status cur junk
  · intro w a w' ih _ hs hb'
    exact (ih (Nat.lt_of_le_of_lt (issued_le hs) hb')).step hs hb'

/-- **The queue in every run.**  While no more than `2 ^ 64 - 1` ids have been handed out, queued
messages have distinct ids other than 0, and no process but the kernel has two non-replies queued
for one destination. -/
theorem queue_tidy {status : Pid → ProcStatus} {cur : Pid → ℕ} {junk : ℕ} {w : World}
    (h : Reach step anyStep (init status cur junk) w) (hb : w.mgr.issued < 2 ^ 64) :
    (w.mgr.messages.map fun m => m.header.id).Nodup ∧ (∀ m ∈ w.mgr.messages, m.header.id ≠ 0) ∧
    ∀ f d, f ≠ 0 → w.mgr.messages.countP (inSlot f d) ≤ 1 := by
  have ht := Tidy.reach h hb
  refine ⟨ht.distinct, ?_, ht.slots⟩
  intro m hm
  have := (ht.ids m hm).1
  omega

/-- Two threads of process 3 send to process 2: the second has to block until the first message is
acknowledged, and then is queued under its own id. -/
def blockedSender : List Act :=
  let h := (userMessage 0 3 2).header
  [.btSend 1 3 h [], .btSend 2 3 h [], .go 2, .go 1, .go 1, .go 2, .go 1, .go 2,
    .btAck 3 2 { h with id := 1 }, .go 2, .go 2]

theorem queue_tidy_blockedSender :
    ∃ w, exec step (init (fun _ => .running) (fun _ => 0) 0) blockedSender = some w ∧
      w.mgr.messages = [userMessage 2 3 2] ∧ (w.mgr.messages.map fun m => m.header.id).Nodup := by
  refine ⟨_, rfl, by decide, ?_⟩
  have hreach := Reach.of_exec step anyStep blockedSender
    (init (fun _ => .running) (fun _ => 0) 0) rfl (guarded_anyStep _ _ _)
  exact (queue_tidy hreach (by decide)).1

end Btos.Kernel.Messaging
