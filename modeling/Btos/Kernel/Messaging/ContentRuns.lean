import Btos.Kernel.Messaging.ContentActs

/-!
# Message contents in every run

The message manager with its objects in memory.  `Depot` puts the system of
`Btos.Kernel.Messaging.System`, the objects and the book together; besides the acts of the system, any
function may copy a queued message to a variable of its own, at any time, and let it go at any later
time, as `GetMessage` and its callers do.

* `contents_kept` — **in every run** `MessageContent` returns for every queued message exactly the bytes
  that were passed to its `SendMessage`; a copy still has them when the message is gone; a buffer is
  never held twice; and nothing undefined ever happens.
-/

namespace Btos.Kernel.Messaging

open Lib.Transition Lib.Word Function List Option Message

/-! ### The manager with its objects -/

structure Depot where
  world : World
  yard : Yard
  book : Book

/-- What can happen: an act of the system; a queued message is copied to variable `n`; that variable
goes. -/
inductive Deal where
  | act (a : Act)
  | copy (n id : ℕ)
  | drop (n : ℕ)
  deriving DecidableEq, Repr

/-- One deal; `none` if it is not possible now. -/
def perform (M : Malloc) (L : Layout) (d : Depot) : Deal → Option (Except Fault Depot)
  | .act a =>
      if a.Measured L then
        (step d.world a).map fun w => (runAll M L (commands d.world a) d.yard).map fun y =>
          ⟨w, y, recordAll L (commands d.world a) d.book⟩
      else none
  | .copy n id =>
      if d.yard.var (.copy n) = none ∧ haveMessage d.world.mgr id = true then
        some ((Cmd.run M L (.copy (.copy n) id) d.yard).map fun y => { d with yard := y })
      else none
  | .drop n => (d.yard.var (.copy n)).map fun _ =>
      (Cmd.run M L (.destroy (.copy n)) d.yard).map fun y => { d with yard := y }

/-- The step of the system with its objects. -/
def depotStep (M : Malloc) (L : Layout) (d : Depot) (deal : Deal) : Option Depot :=
  (perform M L d deal).bind Except.toOption

/-- After `Messaging_Init`. -/
def openDepot (status : Pid → ProcStatus) (cur : Pid → ℕ) (junk : ℕ) : Depot where
  world := init status cur junk
  yard := ⟨.empty, .empty, []⟩
  book := ⟨fun _ => [], fun _ => none⟩

/-- `MessageContent` for a header with this id; `none` would be a read of dead memory. -/
def Depot.messageContent (d : Depot) (id : ℕ) : Option (List ℕ) :=
  match d.yard.queue.items.find? fun x => x.header.id == id with
  | some x => contentOf d.yard.store x
  | none => some []

/-- The invariant: the objects stand for values that agree with the system and the book. -/
def Kept (L : Layout) (d : Depot) : Prop := ∃ β s, Related L β d.yard s ∧ Booked L d.world s d.book

def Deal.Numbered (d : Depot) : Deal → Prop
  | .act a => ∀ w, step d.world a = some w → w.mgr.issued < 2 ^ 64
  | _ => True

theorem Booked.setCopy (h : Booked L w s b) (n : ℕ) (x : Option Message) (hx : ∀ m, x = some m →
      m.header.id ≤ w.mgr.issued ∧ b.sent m.header.id = some (L.bytes m.content)) :
    Booked L w { s with vars := update s.vars (.copy n) x } b := by
  refine { h with senders := ?_, copies := ?_ }
  · intro t
    show update s.vars (.copy n) x (.sender t) = _
    exact h.senders t
  · intro k m hm
    have hm : update s.vars (.copy n) x (.copy k) = some m := hm
    by_cases hkn : Key.copy k = Key.copy n
    · rw [hkn, update_self] at hm
      exact hx m hm
    · rw [update_of_ne hkn] at hm
      exact h.copies k m hm

section Deals

variable {M : Malloc} {L : Layout} {d : Depot}

/-- **One deal**: it is not possible, `malloc` fails, or the invariant holds after it. -/
theorem Kept.perform (h : Kept L d) (hnum : deal.Numbered d) :
    perform M L d deal = none ∨ perform M L d deal = some (.error .noMemory) ∨
      ∃ d', perform M L d deal = some (.ok d') ∧ Kept L d' := by
  obtain ⟨β, s, hrel, hbook⟩ := h
  cases deal with
  | act a =>
    unfold Messaging.perform
    by_cases hm : a.Measured L
    · simp only [if_pos hm]
      cases hs : step d.world a with
      | none => exact .inl rfl
      | some w =>
        right
        obtain ⟨s', heval, hbook'⟩ := hbook.step hs hm (hnum w hs)
        rcases runAll_evalAll (M := M) (commands d.world a) hrel heval with
          hno | ⟨β', y', hrun, hrel'⟩
        · simp only [map_some, hno]
          exact .inl rfl
        · simp only [map_some, hrun]
          exact .inr ⟨_, rfl, β', s', hrel', hbook'⟩
    · simp only [if_neg hm]
      exact .inl trivial
  | copy n id =>
    unfold Messaging.perform
    by_cases hc : d.yard.var (.copy n) = none ∧ haveMessage d.world.mgr id = true
    · simp only [if_pos hc]
      obtain ⟨hvar, hhave⟩ := hc
      have hk : s.vars (.copy n) = none := by
        cases hv : s.vars (.copy n) with
        | none => rfl
        | some m =>
          obtain ⟨x, hx, -⟩ := hrel.var_some hv
          rw [hvar] at hx
          cases hx
      rw [haveMessage_eq_isSome] at hhave
      obtain ⟨m, hget⟩ := isSome_iff_exists.1 hhave
      have hin := (getMessage_some hget).1
      rw [getMessage, ← hbook.queue] at hget
      rcases run_copy hrel hk hget with hno | ⟨β', y', hrun, hrel'⟩
      · rw [hno]
        exact .inr (.inl rfl)
      · rw [hrun]
        refine .inr (.inr ⟨_, rfl, β', _, hrel', hbook.setCopy n (some m) ?_⟩)
        rintro m' ⟨⟩
        exact ⟨(hbook.tidy.ids m hin).2, hbook.sent m hin⟩
    · simp only [if_neg hc]
      exact .inl trivial
  | drop n =>
    simp only [Messaging.perform]
    cases hvar : d.yard.var (.copy n) with
    | none => exact .inl rfl
    | some x =>
      obtain ⟨m, hm, -⟩ := hrel.back (Yard.mem_of_var hvar)
      rcases run_destroy hrel hm with hno | ⟨β', y', hrun, hrel'⟩
      · rw [hno]
        exact .inr (.inl rfl)
      · rw [hrun]
        exact .inr (.inr ⟨_, rfl, β', _, hrel', hbook.setCopy n none (by simp)⟩)

end Deals

/-! ### Every run -/

theorem kept_open (L : Layout) (status : Pid → ProcStatus) (cur : Pid → ℕ) (junk : ℕ) :
    Kept L (openDepot status cur junk) := by
  refine ⟨fun _ => [], ⟨[], fun _ => none⟩, ?_, ?_⟩
  · exact ⟨stocked_empty _, Btos.Util.Ministl.Vector.empty_fits, .nil, nodup_nil, nofun, nofun⟩
  · exact ⟨Tidy.init status cur junk, rfl, fun _ => rfl, nofun, nofun, nofun, nofun⟩

theorem depotStep_some (h : depotStep M L d deal = some d') :
    perform M L d deal = some (.ok d') ∧ d.world.mgr.issued ≤ d'.world.mgr.issued ∧
      (d'.world.mgr.issued < 2 ^ 64 → deal.Numbered d) := by
  obtain ⟨r, hr, hok⟩ := bind_eq_some_iff.1 h
  cases r with
  | error f => cases hok
  | ok d1 =>
    cases hok
    refine ⟨hr, ?_⟩
    cases deal with
    | act a =>
      simp only [perform] at hr
      split at hr
      · obtain ⟨w, hw, heq⟩ := map_eq_some_iff.1 hr
        obtain ⟨y, -, rfl⟩ := map_eq_ok heq
        refine ⟨issued_le hw, ?_⟩
        intro hb w' hw'
        cases hw.symm.trans hw'
        exact hb
      · cases hr
    | copy n id =>
      simp only [perform] at hr
      split at hr
      · obtain ⟨y, -, rfl⟩ := map_eq_ok (Option.some.inj hr)
        exact ⟨Nat.le_refl _, fun _ => trivial⟩
      · cases hr
    | drop n =>
      obtain ⟨x, -, heq⟩ := map_eq_some_iff.1 hr
      obtain ⟨y, -, rfl⟩ := map_eq_ok heq
      exact ⟨Nat.le_refl _, fun _ => trivial⟩

theorem Kept.reach (h : Reach (depotStep M L) anyStep (openDepot status cur junk) d)
    (hb : d.world.mgr.issued < 2 ^ 64) : Kept L d := by
  refine h.invariant (fun d => d.world.mgr.issued < 2 ^ 64 → Kept L d) ?_ ?_ hb
  · intro _
    exact kept_open L status cur junk
  · intro d deal d' ih _ hs hb'
    obtain ⟨hperform, hle, hnum⟩ := depotStep_some hs
    have hkept := ih (Nat.lt_of_le_of_lt hle hb')
    rcases hkept.perform (hnum hb') with hno | hno | ⟨d1, hd1, hkept1⟩
    · rw [hno] at hperform
      cases hperform
    · rw [hno] at hperform
      cases hperform
    · rw [hd1] at hperform
      cases hperform
      exact hkept1

/-- **The contents of messages.**  In every run in which the id counter does not wrap: `MessageContent`
returns for every queued message exactly the bytes that were passed to its `SendMessage`, and so does a
read through a copy of a message, queued or not; no buffer is held by two contents, or by a content and
the pool; and whatever happens next, nothing undefined does. -/
theorem contents_kept {M : Malloc} {L : Layout} {status : Pid → ProcStatus} {cur : Pid → ℕ} {junk : ℕ}
    {d : Depot} (h : Reach (depotStep M L) anyStep (openDepot status cur junk) d)
    (hb : d.world.mgr.issued < 2 ^ 64) :
    (∀ m ∈ d.world.mgr.messages, ∃ bytes, d.book.sent m.header.id = some bytes ∧
      d.messageContent m.header.id = some bytes) ∧
    (∀ n x, d.yard.var (.copy n) = some x → ∃ bytes, d.book.sent x.header.id = some bytes ∧
      contentOf d.yard.store x = some bytes) ∧ Apart d.yard.store ∧
    ∀ deal : Deal, deal.Numbered d → perform M L d deal ≠ some (.error .undefined) := by
  have hkept := Kept.reach h hb
  obtain ⟨β, s, hrel, hbook⟩ := hkept
  refine ⟨?_, ?_, hrel.stocked.apart, ?_⟩
  · intro m hm
    have hget : s.queue.find? (hasID m.header.id) = some m := by
      rw [hbook.queue]
      exact Btos.Lib.Lists.find?_of_countP_le_one
        (Btos.Lib.Lists.countP_le_one_of_nodup hbook.tidy.distinct fun _ ha => hasID_iff.1 ha) hm
        (hasID_iff.2 rfl)
    obtain ⟨x, hfind, hin, hrep⟩ := forall₂_find hrel.queue hget
    refine ⟨_, hbook.sent m hm, ?_⟩
    rw [Depot.messageContent, hfind]
    exact hrel.contentOf (mem_append_left _ hin) hrep
  · intro n x hx
    have hin := Yard.mem_of_var hx
    obtain ⟨m, hm, hrep⟩ := hrel.back hin
    refine ⟨_, ?_, hrel.contentOf (hrel.mem_live hin) hrep⟩
    rw [hrep.1]
    exact (hbook.copies n m hm).2
  · intro deal hnum herr
    rcases Kept.perform ⟨β, s, hrel, hbook⟩ hnum with hno | hno | ⟨d', hd', -⟩
    · rw [hno] at herr
      cases herr
    · rw [hno] at herr
      cases herr
    · rw [hd'] at herr
      cases herr

def firstFree {α : Type} (h : Addr → Option α) : Option Addr := (List.range 8).find? fun a => (h a).isNone

theorem firstFree_fresh (ha : firstFree h = some a) : h a = none := by
  have hnone := find?_some ha
  exact isNone_iff_eq_none.1 hnone

/-- A `malloc` over eight addresses. -/
def smallMalloc : Malloc := ⟨firstFree, firstFree, firstFree_fresh, firstFree_fresh⟩

def blankLayout : Layout := ⟨fun _ => List.replicate headerSize 0, fun _ => length_replicate⟩

/-- Process 3 sends three bytes to process 2, which copies the message and acknowledges it; process 4
sends one byte, copies go, and process 3 sends again, into the buffer of its first message. -/
def reusedBuffer : List Deal :=
  let h := (userMessage 0 3 2).header
  [.act (.btSend 3 3 { h with length := 3 } [1, 2, 3]), .act (.go 3), .act (.go 3), .act (.go 3),
    .copy 0 1, .act (.btAck 2 2 (userMessage 1 3 2).header), .act (.go 2),
    .act (.btSend 4 4 { h with length := 1 } [9]), .act (.go 4), .act (.go 4), .act (.go 4),
    .drop 0, .act (.btSend 3 3 { h with length := 2 } [5, 6]), .act (.go 3), .act (.go 3),
    .act (.go 3)]

theorem contents_kept_reusedBuffer :
    ∃ d, exec (depotStep smallMalloc blankLayout) (openDepot (fun _ => .running) (fun _ => 0) 0)
        reusedBuffer = some d ∧ d.world.mgr.messages.map (fun m => m.header.id) = [2, 3] ∧
      d.messageContent 2 = some [9] ∧ d.messageContent 3 = some [5, 6] ∧
      (∀ m ∈ d.world.mgr.messages, ∃ bytes, d.book.sent m.header.id = some bytes ∧
        d.messageContent m.header.id = some bytes) := by
  refine ⟨_, rfl, by decide, by decide, by decide, ?_⟩
  have hreach := Reach.of_exec (depotStep smallMalloc blankLayout) anyStep reusedBuffer
    (openDepot (fun _ => .running) (fun _ => 0) 0) rfl (guarded_anyStep _ _ _)
  exact (contents_kept hreach (by decide)).1

/-! ### When the ids run out -/

/-- Thread `t` of the kernel sends `bytes` to process 2. -/
def kernelSend (t : ℕ) (bytes : List ℕ) : List Deal :=
  [.act (.send t { (userMessage 0 0 2).header with flags := 0, length := bytes.length } (.bytes bytes)),
    .act (.go t), .act (.go t), .act (.go t)]

/-- The message that such a call queues. -/
def kernelSent (bytes : List ℕ) (id : ℕ) : Message :=
  (newMessage { (userMessage 0 0 2).header with flags := 0, length := bytes.length } (.bytes bytes)).withID id

/-- The byte 7 is queued for process 2, under the id 1. -/
def firstSent : Depot :=
  (exec (depotStep smallMalloc blankLayout) (openDepot (fun _ => .running) (fun _ => 0) 0) (kernelSend 3 [7])).getD
    (openDepot (fun _ => .running) (fun _ => 0) 0)

/-- The same with the id counter at `c`, after `n` ids. -/
def firstSentAt (c n : ℕ) (b : Book) (acc : List Message) : Depot :=
  { firstSent with
    world := { firstSent.world with
      mgr := { firstSent.world.mgr with idCounter := c, issued := n }, accepted := acc }
    book := b }

/-- An empty message is queued behind it. -/
def secondSentAt (c n : ℕ) (b : Book) (acc : List Message) : Depot :=
  (exec (depotStep smallMalloc blankLayout) (firstSentAt c n b acc) (kernelSend 9 [])).getD firstSent

/-- Process 2 has acknowledged it, and is about to send the receipt. -/
def ackedAt (c n : ℕ) (b : Book) (acc : List Message) : Depot where
  world := ⟨(firstSentAt (add64 c 1) (n + 1) b acc).world.mgr,
    update firstSent.world.pc 2 (.receipt (kernelSent [] (add64 c 1)).header .done),
    (secondSentAt c n b acc).world.accepted⟩
  yard := firstSent.yard
  book := (secondSentAt c n b acc).book

/-- An empty message is sent to process 2, which acknowledges it. -/
def ackRound (id : ℕ) : List Deal :=
  kernelSend 9 [] ++ [.act (.btAck 2 2 (kernelSent [] id).header), .act (.go 2)]

section Round

variable {c n : ℕ} {b : Book} {acc : List Message}

theorem secondSentAt_messages :
    (secondSentAt c n b acc).world.mgr.messages = [kernelSent [7] 1, kernelSent [] (add64 c 1)] := rfl

theorem secondSentAt_acknowledge (hid : hasID (add64 c 1) (kernelSent [7] 1) = false) :
    acknowledge (secondSentAt c n b acc).world.mgr 2 (add64 c 1) =
      (firstSentAt (add64 c 1) (n + 1) b acc).world.mgr := by
  have hcur : (if (secondSentAt c n b acc).world.mgr.currentMessageID 2 = add64 c 1 then
      setCurrentMessageID (secondSentAt c n b acc).world.mgr 2 0 else (secondSentAt c n b acc).world.mgr) =
        (secondSentAt c n b acc).world.mgr := by
    split
    · exact congrArg (fun f => { (secondSentAt c n b acc).world.mgr with currentMessageID := f })
        (update_eq_self 2 _)
    · rfl
  have hlast : hasID (add64 c 1) (kernelSent [] (add64 c 1)) = true := hasID_iff.2 rfl
  rw [acknowledge, hcur, removeMessage, secondSentAt_messages, eraseP_cons_of_neg (by simp [hid]),
    eraseP_cons_of_pos hlast]
  rfl

/-- **Objects and threads end a round where they began**; only the numbers and the records have changed. -/
theorem exec_ackRound (hne : add64 c 1 ≠ 1) :
    exec (depotStep smallMalloc blankLayout) (firstSentAt c n b acc) (ackRound (add64 c 1)) =
      some (firstSentAt (add64 c 1) (n + 1) (secondSentAt c n b acc).book
        (secondSentAt c n b acc).world.accepted) := by
  have hid : hasID (add64 c 1) (kernelSent [7] 1) = false := by
    rw [← Bool.not_eq_true, hasID_iff]
    exact Ne.symm hne
  have hlast : hasID (add64 c 1) (kernelSent [] (add64 c 1)) = true := hasID_iff.2 rfl
  have hpc : (secondSentAt c n b acc).world.pc = firstSent.world.pc := by
    show update (update (update (update firstSent.world.pc 9 _) 9 _) 9 _) 9 .idle = _
    rw [update_idem, update_idem, update_idem]
    exact update_eq_self 9 _
  have hstep : step (secondSentAt c n b acc).world (.btAck 2 2 (kernelSent [] (add64 c 1)).header) =
      some (ackedAt c n b acc).world := by
    have hhave : haveMessage (secondSentAt c n b acc).world.mgr (add64 c 1) = true := by
      rw [haveMessage, secondSentAt_messages, any_cons, any_cons, hlast]
      simp
    have hack : acknowledgeMessage (secondSentAt c n b acc).world.mgr 2 (kernelSent [] (add64 c 1)).header .done =
        (acknowledge _ 2 (add64 c 1), .receipt _ .done) := if_pos hhave
    simp only [step, Act.thread, hpc, enter, hack, secondSentAt_acknowledge hid]
    rfl
  have hcmds : commands (secondSentAt c n b acc).world (.btAck 2 2 (kernelSent [] (add64 c 1)).header) =
      [.erase 1] := by
    show eraseCommands (hasID (add64 c 1)) _ = _
    rw [secondSentAt_messages]
    simp [eraseCommands, findIdx?_cons, hid, hlast]
  have hrun : runAll smallMalloc blankLayout [.erase 1] (secondSentAt c n b acc).yard = .ok firstSent.yard := by
    show Except.ok (⟨⟨update (update (update (update firstSent.yard.store.objects 1 _) 1 _) 1 _) 1 none,
      firstSent.yard.store.buffers, firstSent.yard.store.pool⟩, firstSent.yard.queue, firstSent.yard.vars⟩ : Yard) = _
    rw [update_idem, update_idem, update_idem]
    exact congrArg (fun o => Except.ok { firstSent.yard with store := { firstSent.yard.store with objects := o } })
      (update_eq_self 1 _)
  have hsent : exec (depotStep smallMalloc blankLayout) (firstSentAt c n b acc) (kernelSend 9 []) =
      some (secondSentAt c n b acc) := rfl
  have hacked : depotStep smallMalloc blankLayout (secondSentAt c n b acc)
      (.act (.btAck 2 2 (kernelSent [] (add64 c 1)).header)) = some (ackedAt c n b acc) := by
    have hm : (Act.btAck 2 2 (kernelSent [] (add64 c 1)).header).Measured blankLayout := trivial
    rw [depotStep, perform, if_pos hm, hstep, hcmds, map_some, hrun]
    rfl
  rw [ackRound, exec_append, hsent, bind_some, exec, hacked, bind_some]
  have hidle : update firstSent.world.pc 2 .idle = firstSent.world.pc := update_eq_self 2 _
  show some (⟨⟨_, update (update firstSent.world.pc 2 _) 2 .idle, (secondSentAt c n b acc).world.accepted ++ []⟩,
    _, _⟩ : Depot) = _
  rw [update_idem, hidle, append_nil]
  rfl

end Round

theorem exec_ackRounds (m : ℕ) (hm : m < 2 ^ 64) : ∃ b acc,
    exec (depotStep smallMalloc blankLayout) (firstSentAt 1 1 firstSent.book firstSent.world.accepted)
        ((List.range m).flatMap fun i => ackRound (add64 1 (i + 1))) =
      some (firstSentAt (add64 1 m) (1 + m) b acc) := by
  induction m with
  | zero => exact ⟨_, _, rfl⟩
  | succ m ih =>
    obtain ⟨b, acc, hrounds⟩ := ih (Nat.lt_of_succ_lt hm)
    have hnext : add64 (add64 1 m) 1 = add64 1 (m + 1) ∧ add64 1 (m + 1) ≠ 1 := by
      unfold add64
      omega
    have hround := @exec_ackRound (add64 1 m) (1 + m) b acc (hnext.1 ▸ hnext.2)
    rw [hnext.1] at hround
    refine ⟨(secondSentAt (add64 1 m) (1 + m) b acc).book, (secondSentAt (add64 1 m) (1 + m) b acc).world.accepted, ?_⟩
    rw [range_succ, flatMap_append, exec_append, hrounds, bind_some, flatMap_singleton]
    exact hround

/-- **Two messages under one id.**  A message stays queued while all the other ids are drawn, by messages that are
acknowledged at once; the next message gets its id, and `MessageContent` returns the bytes of the first one
for it. -/
theorem contents_confused :
    ∃ deals d, exec (depotStep smallMalloc blankLayout) (openDepot (fun _ => .running) (fun _ => 0) 0)
        deals = some d ∧
      ∃ m ∈ d.world.mgr.messages, m.content = .bytes [9] ∧ d.messageContent m.header.id = some [7] := by
  have hfirst : exec (depotStep smallMalloc blankLayout)
      (openDepot (fun _ => .running) (fun _ => 0) 0) (kernelSend 3 [7]) =
      some (firstSentAt 1 1 firstSent.book firstSent.world.accepted) := rfl
  obtain ⟨b, acc, hids⟩ := exec_ackRounds (2 ^ 64 - 1) (by decide)
  generalize 1 + (2 ^ 64 - 1) = n at hids
  refine ⟨kernelSend 3 [7] ++ (((List.range (2 ^ 64 - 1)).flatMap fun i => ackRound (add64 1 (i + 1))) ++
      kernelSend 4 [9]),
    (exec (depotStep smallMalloc blankLayout) (firstSentAt 0 n b acc) (kernelSend 4 [9])).getD firstSent, ?_,
    kernelSent [9] 1, mem_cons_of_mem _ mem_cons_self, rfl, rfl⟩
  rw [exec_append, hfirst, bind_some, exec_append, hids]
  rfl

end Btos.Kernel.Messaging
