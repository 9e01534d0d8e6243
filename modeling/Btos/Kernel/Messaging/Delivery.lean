import Btos.Kernel.Messaging.Receive

/-!
# Every process receives its own messages

The run theorem for `Btos.Kernel.Messaging.Receive`: all interleavings of calls, and what each call that receives
returns.  `Orderly` is the invariant, on the field of each process and on the handles.

* `returnsRight_iff` — from an orderly state a call returns the right header **exactly if** the field it
  looks at is as it should be.
-/

namespace Btos.Kernel.Messaging

open Lib.Transition Lib.Lists Function List Option

/-- The invariant of the runs whose calls look at good fields only. -/
structure Orderly (o : Office) : Prop where
  tidy : Tidy o.world
  fields : ∀ p, o.world.mgr.currentMessageID p = o.born p ∨ Mine o.world p (o.world.mgr.currentMessageID p)
  handles : ∀ n h msg, o.handles n = some h → h.msg = some msg →
    Returned.Right ⟨h.pid, some h.filter, msg, h.taken⟩

/-! ### What is returned -/

section

variable {o : Office} {p : Pid} {f : Option MsgFilter}

/-- A header comes from a queued message that the filter lets through, and that is remembered in the
field or for the process. -/
theorem received_cases (h : received s p f = some r) : ∃ m ∈ s.messages, r = ⟨p, f, m.header, s.messages⟩ ∧
      (f.all fun f => doesMessageMatch m.header f) = true ∧
      (m.header.id = s.currentMessageID p ∨ m.header.toPid = p) := by
  obtain ⟨⟨s', hd⟩, hr, rfl⟩ := map_eq_some_iff.1 h
  unfold recieveMessageWith at hr
  split at hr
  · rename_i cmsg hget
    cases hr
    obtain ⟨hget, hacc⟩ := filter_eq_some_iff.1 hget
    obtain ⟨hm, hid⟩ := getMessage_some hget
    exact ⟨cmsg, hm, rfl, hacc, .inl hid⟩
  · obtain ⟨m, hm, heq⟩ := map_eq_some_iff.1 hr
    cases heq
    have hp := find?_some hm
    simp only [Bool.and_eq_true, beq_iff_eq] at hp
    exact ⟨m, mem_of_find?_eq_some hm, rfl, hp.2, .inr hp.1⟩

variable {w : World} {m : Message} {o : Office}

theorem Tidy.getMessage (ht : Tidy w) (hm : m ∈ w.mgr.messages) : getMessage w.mgr m.header.id = some m :=
  find?_of_countP_le_one (countP_le_one_of_nodup ht.distinct fun _ ha => hasID_iff.1 ha) hm
    (hasID_iff.2 rfl)

theorem received_current (ht : Tidy o.world) (hm : m ∈ o.world.mgr.messages)
    (hid : m.header.id = o.world.mgr.currentMessageID p)
    (hacc : (f.all fun f => doesMessageMatch m.header f) = true) :
    received o.world.mgr p f = some ⟨p, f, m.header, o.world.mgr.messages⟩ := by
  have hget := ht.getMessage hm
  rw [hid] at hget
  rw [received, recieveMessageWith, hget, filter_some, if_pos hacc]
  rfl

theorem Orderly.current_mine (ho : Orderly o) (hok : FieldOk o p f) (hm : m ∈ o.world.mgr.messages)
    (hid : m.header.id = o.world.mgr.currentMessageID p)
    (hacc : (f.all fun f => doesMessageMatch m.header f) = true) : m.header.toPid = p := by
  rcases ho.fields p with hborn | hmine
  · exact hok hborn m hm (hid.trans hborn) hacc
  · exact hmine.queued m hm hid

theorem right_of_mem (hm : m ∈ l) (hto : m.header.toPid = p)
    (hacc : (f.all fun f => doesMessageMatch m.header f) = true) : Returned.Right ⟨p, f, m.header, l⟩ := by
  refine ⟨hto, ⟨m, hm, rfl⟩, ?_⟩
  rintro f' rfl
  exact hacc

/-- **`RecieveMessage` from an orderly state.** -/
theorem received_right_iff_fieldOk (ho : Orderly o) :
    (∀ r, received o.world.mgr p f = some r → r.Right) ↔ FieldOk o p f := by
  constructor
  · intro h hborn m hm hid hacc
    exact (h _ (received_current ho.tidy hm (hid.trans hborn.symm) hacc)).1
  · intro hok r hr
    obtain ⟨m, hm, rfl, hacc, hid | hto⟩ := received_cases hr
    · exact right_of_mem hm (ho.current_mine hok hm hid hacc) hacc
    · exact right_of_mem hm hto hacc

/-- The first look of the filtered `AwaitMessage`. -/
theorem awaitCurrent_right_iff_fieldOk (ho : Orderly o) :
    (∀ r, returnedAt o.world.mgr (.awaitCurrent p fl) = some r → r.Right) ↔ FieldOk o p (some fl) := by
  constructor
  · intro h hborn m hm hid hacc
    have hget := ho.tidy.getMessage hm
    rw [hid.trans hborn.symm] at hget
    refine (h ⟨p, some fl, m.header, o.world.mgr.messages⟩ ?_).1
    have hmatch : doesMessageMatch m.header fl = true := hacc
    rw [returnedAt, hget, filter_some, if_pos hmatch]
    rfl
  · intro hok r hr
    obtain ⟨m, hget, rfl⟩ := map_eq_some_iff.1 hr
    obtain ⟨hget, hacc⟩ := filter_eq_some_iff.1 hget
    obtain ⟨hm, hid⟩ := getMessage_some hget
    exact right_of_mem hm (ho.current_mine hok hm hid hacc) hacc

/-- The loop of the filtered `AwaitMessage` looks at the addressee. -/
theorem awaitFiltered_right (h : returnedAt s (.awaitFiltered p fl) = some r) : r.Right := by
  obtain ⟨m, hm, rfl⟩ := map_eq_some_iff.1 h
  have hp := find?_some hm
  simp only [Bool.and_eq_true, beq_iff_eq] at hp
  exact right_of_mem (mem_of_find?_eq_some hm) hp.1 hp.2

end

/-! ### One call -/

section

variable {o : Office} {c : Call}

theorem lookOk_some (h : looksAt o c = some q) : LookOk o c ↔ FieldOk o q.1 q.2 := by
  rw [LookOk, h]
  simp only [mem_def, Option.some.injEq, forall_eq']

theorem lookOk_none (h : looksAt o c = none) : LookOk o c := by
  rw [LookOk, h]
  simp

theorem returnsRight_iff_of_none (hret : returned o c = none) (hlook : looksAt o c = none) :
    ReturnsRight o c ↔ LookOk o c := by
  refine iff_of_true ?_ (lookOk_none hlook)
  intro r hr
  rw [hret] at hr
  cases hr

/-- A call that returns what `RecieveMessage` returns. -/
theorem returnsRight_iff_of_received (ho : Orderly o)
    (hret : returned o c = received o.world.mgr p f) (hlook : looksAt o c = some (p, f)) :
    ReturnsRight o c ↔ LookOk o c := by
  rw [lookOk_some hlook, ReturnsRight, hret]
  exact received_right_iff_fieldOk ho

/-- **A call returns the right header exactly if the field it looks at is as it should be.** -/
theorem returnsRight_iff (ho : Orderly o) : ReturnsRight o c ↔ LookOk o c := by
  cases c with
  | createRecieveHandle n p f => exact returnsRight_iff_of_none rfl rfl
  | wait n locked =>
    cases hn : o.handles n with
    | none => exact returnsRight_iff_of_none (by simp [returned, hn]) (by simp [looksAt, hn])
    | some h =>
      by_cases hlook : canLook o.world.mgr h locked = true
      · have hret : returned o (.wait n locked) = received o.world.mgr h.pid (some h.filter) := by
          simp [returned, hn, hlook]
        exact returnsRight_iff_of_received ho hret (by simp [looksAt, hn, hlook])
      · exact returnsRight_iff_of_none (by simp [returned, hn, hlook])
          (by simp [looksAt, hn, hlook])
  | read n =>
    refine iff_of_true ?_ (lookOk_none rfl)
    intro r hr
    obtain ⟨h, hn, hr⟩ := bind_eq_some_iff.1 hr
    obtain ⟨msg, hmsg, rfl⟩ := map_eq_some_iff.1 hr
    exact ho.handles n h msg hn hmsg
  | act a =>
    cases a with
    | btRecv t p block | btRecvFiltered t p f block =>
      cases block with
      | false => exact returnsRight_iff_of_received ho rfl rfl
      | true => exact returnsRight_iff_of_none rfl rfl
    | go t =>
      have hret : returned o (.act (.go t)) = returnedAt o.world.mgr (o.world.pc t) := rfl
      cases hpc : o.world.pc t with
      | await p =>
        rw [hpc] at hret
        exact returnsRight_iff_of_received ho hret (by simp [looksAt, hpc])
      | awaitCurrent p f =>
        rw [hpc] at hret
        rw [lookOk_some (q := (p, some f)) (by simp [looksAt, hpc]), ReturnsRight, hret]
        exact awaitCurrent_right_iff_fieldOk ho
      | awaitFiltered p f =>
        rw [hpc] at hret
        refine iff_of_true ?_ (lookOk_none (by simp [looksAt, hpc]))
        intro r hr
        rw [hret] at hr
        exact awaitFiltered_right hr
      | idle | sendCheck | sendReply | sendNumber | sendAdd | sendBlocked | receipt =>
        rw [hpc] at hret
        exact returnsRight_iff_of_none hret (by simp [looksAt, hpc])
    | send | btSend | btNextMsg | btNextMsgFiltered | btContent | btAck | btSubscribe
    | btUnsubscribe | kernelEvent | clearMessages | newProcess | setStatus | abort =>
      exact returnsRight_iff_of_none rfl rfl

end

/-! ### The invariant -/

theorem bornAfter_cases (f g : Pid → ℕ) (a : Act) (p : Pid) :
    bornAfter f a p = bornAfter g a p ∨ bornAfter f a p = f p ∧ bornAfter g a p = g p := by
  cases a with
  | newProcess t q cid =>
    by_cases hq : p = q
    · subst hq
      left
      show update f p cid p = update g p cid p
      rw [update_self, update_self]
    · exact .inr ⟨update_of_ne hq .., update_of_ne hq ..⟩
  | send | btSend | btRecv | btRecvFiltered | btNextMsg | btNextMsgFiltered | btContent | btAck
  | btSubscribe | btUnsubscribe | kernelEvent | clearMessages | setStatus | abort | go =>
    exact .inr ⟨rfl, rfl⟩

/-- What `Wait` does to the manager and to its handle. -/
theorem wait_cases (s : State) (h : RecieveHandle) (locked : Bool) :
    h.wait s locked = (s, { h with msg := none }) ∨ canLook s h locked = true ∧ ∃ s' msg,
        recieveMessageFiltered h.filter s h.pid = some (s', msg) ∧
          h.wait s locked = (s', { h with msg := some msg, taken := s.messages }) := by
  unfold RecieveHandle.wait
  by_cases hlook : canLook s h locked = true
  · rw [if_pos hlook]
    cases hr : recieveMessageFiltered h.filter s h.pid with
    | none => exact .inl rfl
    | some r => exact .inr ⟨hlook, r.1, r.2, rfl, rfl⟩
  · rw [if_neg hlook]
    exact .inl rfl

theorem Tidy.setCurrentMessageID (h : Tidy w) (p : Pid) (v : ℕ) :
    Tidy { w with mgr := setCurrentMessageID w.mgr p v } :=
  ⟨h.counter, h.ids, h.distinct, h.slots, h.handIds, h.handDistinct⟩

theorem Mine.setCurrentMessageID (h : Mine w q u) (p : Pid) (v : ℕ) :
    Mine { w with mgr := setCurrentMessageID w.mgr p v } q u :=
  ⟨h.issued, h.queued, h.hands⟩

theorem Orderly.act (ho : Orderly o) (hs : step o.world a = some w) (hb : w.mgr.issued < 2 ^ 64) :
    Orderly { o with world := w, born := bornAfter o.born a } where
  tidy := ho.tidy.step hs hb
  fields p := by
    have ht := ho.tidy.step hs hb
    rcases step_wrote hs p with hcur | hzero | ⟨m, hm, hto, hid⟩
    · rcases bornAfter_cases o.world.mgr.currentMessageID o.born a p with heq | ⟨hold, hborn⟩
      · exact .inl (hcur.trans heq)
      · rw [hold] at hcur
        show w.mgr.currentMessageID p = bornAfter o.born a p ∨ _
        rw [hcur, hborn]
        exact (ho.fields p).imp id fun hmine => hmine.step ho.tidy hs hb
    · right
      show Mine w p (w.mgr.currentMessageID p)
      rw [hzero]
      exact mine_zero ht p
    · right
      show Mine w p (w.mgr.currentMessageID p)
      rw [hid, ← hto]
      exact (mine_of_mem ho.tidy hm).step ho.tidy hs hb
  handles := ho.handles

theorem Orderly.putHandle (ho : Orderly o) (n : ℕ) (h : RecieveHandle)
    (hright : ∀ msg, h.msg = some msg → Returned.Right ⟨h.pid, some h.filter, msg, h.taken⟩) :
    Orderly { o with handles := update o.handles n (some h) } where
  tidy := ho.tidy
  fields := ho.fields
  handles k h' msg hk hmsg := by
    by_cases hkn : k = n
    · subst hkn
      have heq : some h = some h' := (update_self k (some h) o.handles).symm.trans hk
      cases heq
      exact hright msg hmsg
    · exact ho.handles k h' msg ((update_of_ne hkn (some h) o.handles).symm.trans hk) hmsg

theorem Orderly.recieve (ho : Orderly o) (hr : recieveMessageWith accept o.world.mgr p = some (s, hd)) :
    Orderly { o with world := { o.world with mgr := s } } := by
  rcases recieveMessageWith_cases hr with rfl | ⟨m, hm, hto, rfl⟩
  · exact ho
  · refine ⟨ho.tidy.setCurrentMessageID p _, ?_, ho.handles⟩
    intro q
    show update o.world.mgr.currentMessageID p m.header.id q = _ ∨
      Mine _ q (update o.world.mgr.currentMessageID p m.header.id q)
    by_cases hq : q = p
    · subst hq
      rw [update_self]
      right
      rw [← hto]
      exact (mine_of_mem ho.tidy hm).setCurrentMessageID _ _
    · rw [update_of_ne hq]
      exact (ho.fields q).imp id fun hmine => hmine.setCurrentMessageID _ _

/-- **The step lemma.** -/
theorem Orderly.step (ho : Orderly o) (hok : LookOk o c)
    (hs : callStep o c = some o') (hb : o'.world.mgr.issued < 2 ^ 64) : Orderly o' := by
  cases c with
  | act a =>
    obtain ⟨w, hw, rfl⟩ := map_eq_some_iff.1 hs
    exact ho.act hw hb
  | createRecieveHandle n p f =>
    simp only [callStep] at hs
    split at hs
    · cases hs
    · cases hs
      exact ho.putHandle n ⟨p, f, none, []⟩ (by simp)
  | wait n locked =>
    obtain ⟨h, hn, rfl⟩ := map_eq_some_iff.1 hs
    rcases wait_cases o.world.mgr h locked with hw | ⟨hlook, s', msg, hr, hw⟩
    · rw [hw]
      exact ho.putHandle n { h with msg := none } (by simp)
    · rw [hw]
      refine (ho.recieve hr).putHandle n { h with msg := some msg, taken := _ } ?_
      intro msg' hmsg'
      cases hmsg'
      have hlooks : looksAt o (.wait n locked) = some (h.pid, some h.filter) := by
        simp [looksAt, hn, hlook]
      refine (received_right_iff_fieldOk ho).2 ((lookOk_some hlooks).1 hok) _ ?_
      exact map_eq_some_iff.2 ⟨(s', msg), hr, rfl⟩
  | read n =>
    obtain ⟨h, -, rfl⟩ := map_eq_some_iff.1 hs
    exact ho

theorem Orderly.open (status : Pid → ProcStatus) (cur : Pid → ℕ) (junk : ℕ) :
    Orderly (openOffice status cur junk) where
  tidy := Tidy.init status cur junk
  fields p := .inl rfl
  handles n h msg hn _ := by cases hn

theorem callStep_issued_le (hs : callStep o c = some o') : o.world.mgr.issued ≤ o'.world.mgr.issued := by
  cases c with
  | act a =>
    obtain ⟨w, hw, rfl⟩ := map_eq_some_iff.1 hs
    exact issued_le hw
  | createRecieveHandle n p f =>
    simp only [callStep] at hs
    split at hs
    · cases hs
    · cases hs
      exact Nat.le_refl _
  | wait n locked =>
    obtain ⟨h, -, rfl⟩ := map_eq_some_iff.1 hs
    have hissued : (h.wait o.world.mgr locked).1.issued = o.world.mgr.issued := by
      rcases wait_cases o.world.mgr h locked with hw | ⟨-, s', msg, hr, hw⟩
      · rw [hw]
      · rw [hw]
        rcases recieveMessageWith_cases hr with rfl | ⟨m, -, -, rfl⟩ <;> rfl
    exact Nat.le_of_eq hissued.symm
  | read n =>
    obtain ⟨h, -, rfl⟩ := map_eq_some_iff.1 hs
    exact Nat.le_refl _

/-! ### Every run -/

/-- **What a run hands out.**  As long as the 64-bit ids do not wrap, every header that is returned in a
run is for its process, was queued and matches the filter of its call **exactly if** at each call that
looks at the remembered id that id was written by the manager, or does not name a message for
another process that the call's filter lets through. -/
theorem received_right_iff {status : Pid → ProcStatus} {cur : Pid → ℕ} {junk : ℕ}
    {calls : List Call} {o : Office} (hrun : exec callStep (openOffice status cur junk) calls = some o)
    (hb : o.world.mgr.issued < 2 ^ 64) : Guarded callStep ReturnsRight (openOffice status cur junk) calls ↔
      Guarded callStep LookOk (openOffice status cur junk) calls :=
  guarded_iff Orderly (fun o => o.world.mgr.issued < 2 ^ 64)
    (fun _ _ _ hs hb => Nat.lt_of_le_of_lt (callStep_issued_le hs) hb)
    (fun _ _ _ ho _ _ => returnsRight_iff ho)
    (fun _ _ _ ho hok hs hb => ho.step hok hs hb)
    calls _ (Orderly.open status cur junk) hrun hb

/-- Process 3 sends the byte 7 to process 2, and the message is queued under the id 1. -/
def firstPost : List Call :=
  [.act (.btSend 3 3 { (userMessage 0 3 2).header with length := 1 } [7]), .act (.go 3),
    .act (.go 3), .act (.go 3)]

/-- Process 2 gets the message through a handle that asks for messages from process 3, and again from
`bt_recv`; its field held 7 when the process was made. -/
theorem received_right_iff_firstPost :
    ∃ o, exec callStep (openOffice (fun _ => .running) (fun _ => 7) 0)
        (firstPost ++ [.createRecieveHandle 0 2 ⟨1, 3, 0, 0, 0⟩, .wait 0 true, .read 0,
          .act (.btRecv 2 2 false)]) = some o ∧
      (o.handles 0).map (fun h => h.msg.map fun msg => msg.id) = some (some 1) ∧
      Guarded callStep ReturnsRight (openOffice (fun _ => .running) (fun _ => 7) 0)
        (firstPost ++ [.createRecieveHandle 0 2 ⟨1, 3, 0, 0, 0⟩, .wait 0 true, .read 0,
          .act (.btRecv 2 2 false)]) := by
  refine ⟨_, rfl, by decide, (received_right_iff rfl (by decide)).2 (by decide +kernel)⟩

/-- **A stranger receives the message.**  Process 4 is made on memory in which `currentMessageId` is 1,
and its first `bt_recv` returns the message for process 2. -/
theorem stranger_receives :
    (exec callStep (openOffice (fun _ => .running) (fun _ => 0) 0)
        (firstPost ++ [.act (.newProcess 0 4 1)])).bind
          (fun o => (returned o (.act (.btRecv 4 4 false))).map fun r => (r.pid, r.header.toPid)) =
        some (4, 2) ∧ ¬Guarded callStep ReturnsRight (openOffice (fun _ => .running) (fun _ => 0) 0)
      (firstPost ++ [.act (.newProcess 0 4 1), .act (.btRecv 4 4 false)]) := by
  refine ⟨by decide +kernel, ?_⟩
  rintro ⟨-, -, -, -, -, h, -⟩
  have h24 : 2 = 4 := (h _ rfl).1
  cases h24

end Btos.Kernel.Messaging
