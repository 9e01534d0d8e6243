import Btos.Lib.Transition

/-!
# Events for a client of the window manager

`user/system/wm/client.cpp`: `SendEvent` queues an event, `SendNextEvent` sends the first one.  A pointer that
moves takes the place of a move that is still queued; the next event goes out when the last one was
acknowledged (`user/system/wm/service.cpp`).

* `Client.sendEvent`, `Client.sendNextEvent` — **the code**;
* `Omits` — **what may be left out**: moves of the pointer with a later move;
* `sent_right` — **in every run** nothing else is left out, and one event at most is under way.
-/

namespace Btos.User.Wm

open Lib.Transition List

/-- `wm_Event`: its type, and the rest of it. -/
structure Event (δ : Type) where
  type : ℕ
  data : δ

variable {δ : Type}

/-- `wm_EventType::PointerMove`. -/
def pointerMove : ℕ := 1

def Event.isMove (e : Event δ) : Bool := e.type == pointerMove

structure Client (δ : Type) where
  eventQ : List (Event δ)
  msgPending : Bool

/-- `SendNextEvent`, and the event that is sent. -/
def Client.sendNextEvent (c : Client δ) : Client δ × Option (Event δ) :=
  match c.eventQ with
  | e :: rest => (⟨rest, true⟩, some e)
  | [] => ({ c with msgPending := false }, none)

def Client.sendEvent (e : Event δ) (c : Client δ) : Client δ × Option (Event δ) :=
  let eventQ := if e.type == pointerMove then c.eventQ.eraseP Event.isMove else c.eventQ
  let c := { c with eventQ := eventQ ++ [e] }
  if !c.msgPending then c.sendNextEvent else (c, none)

/-- The client, the events that were submitted and sent, and how many were acknowledged. -/
structure Session (δ : Type) where
  client : Client δ
  submitted : List (Event δ)
  sent : List (Event δ)
  acknowledged : ℕ

def Session.start : Session δ := ⟨⟨[], false⟩, [], [], 0⟩

inductive Act (δ : Type) where
  | submit (e : Event δ)
  | acknowledge

def step (s : Session δ) : Act δ → Option (Session δ)
  | .submit e =>
    let r := s.client.sendEvent e
    some { s with client := r.1, submitted := s.submitted ++ [e], sent := s.sent ++ r.2.toList }
  | .acknowledge =>
    if s.acknowledged < s.sent.length then
      let r := s.client.sendNextEvent
      some { s with client := r.1, sent := s.sent ++ r.2.toList, acknowledged := s.acknowledged + 1 }
    else none

/-! ### What may be left out -/

/-- The second list is the first without some moves of the pointer, each with a later one in the list. -/
inductive Omits : List (Event δ) → List (Event δ) → Prop where
  | nil : Omits [] []
  | keep (e) : Omits s d → Omits (e :: s) (e :: d)
  | skip : e.isMove → e' ∈ s → e'.isMove → Omits s d → Omits (e :: s) d

section

variable {s d d₁ d₂ : List (Event δ)} {e x : Event δ}

theorem Omits.append (h : Omits s d) (e : Event δ) : Omits (s ++ [e]) (d ++ [e]) := by
  induction h with
  | nil => exact .keep e .nil
  | keep x _ ih => exact .keep x ih
  | skip hx hin hmove _ ih => exact .skip hx (mem_append_left _ hin) hmove ih

/-- A move takes the place of an earlier one. -/
theorem Omits.replace (h : Omits s d) (hd : d = d₁ ++ x :: d₂) (hx : x.isMove) (he : e.isMove) :
    Omits (s ++ [e]) (d₁ ++ d₂ ++ [e]) := by
  induction h generalizing d₁ with
  | nil => simp at hd
  | keep y h ih =>
    cases d₁ with
    | nil =>
      cases hd
      exact .skip hx (mem_append_right _ mem_cons_self) he (h.append e)
    | cons z d₁ =>
      cases hd
      exact .keep y (ih rfl)
  | skip hy hin hmove _ ih => exact .skip hy (mem_append_left _ hin) hmove (ih hd)

theorem Omits.others (h : Omits s d) : s.filter (!·.isMove) = d.filter (!·.isMove) := by
  induction h with
  | nil => rfl
  | keep e _ ih => rw [filter_cons, filter_cons, ih]
  | skip hx _ _ _ ih => rw [filter_cons, hx, ih]; rfl

theorem Omits.last (h : Omits s d) : (s.filter Event.isMove).getLast? = (d.filter Event.isMove).getLast? := by
  induction h with
  | nil => rfl
  | keep e _ ih =>
    rw [filter_cons, filter_cons]
    split
    · rw [getLast?_cons, getLast?_cons, ih]
    · exact ih
  | skip hx hin hmove _ ih =>
    rw [filter_cons, if_pos hx, ← ih, getLast?_cons_of_ne_nil]
    exact ne_nil_of_mem (mem_filter.2 ⟨hin, hmove⟩)

end

/-! ### Every run -/

structure Inv (s : Session δ) : Prop where
  omits : Omits s.submitted (s.sent ++ s.client.eventQ)
  pending : s.sent.length = s.acknowledged + s.client.msgPending.toNat
  drained : s.client.msgPending = false → s.client.eventQ = []

/-- `SendNextEvent` when no event is under way. -/
theorem Inv.next {c : Client δ} (homits : Omits sub (sent ++ c.eventQ)) (hacked : sent.length = n) :
    Inv ⟨c.sendNextEvent.1, sub, sent ++ c.sendNextEvent.2.toList, n⟩ := by
  cases hq : c.eventQ with
  | nil =>
    rw [Client.sendNextEvent, hq]
    exact ⟨by simpa [hq] using homits, by simpa using hacked, fun _ => rfl⟩
  | cons e rest =>
    rw [Client.sendNextEvent, hq]
    exact ⟨by simpa [hq] using homits, by simpa using hacked, by simp⟩

theorem Inv.submit {s : Session δ} (h : Inv s) (e : Event δ) : Omits (s.submitted ++ [e]) (s.sent ++
    ((if e.type == pointerMove then s.client.eventQ.eraseP Event.isMove else s.client.eventQ) ++ [e])) := by
  rw [← append_assoc]
  split
  · rename_i he
    rcases exists_or_eq_self_of_eraseP Event.isMove s.client.eventQ with hsame | ⟨x, l1, l2, -, hx, hq, herase⟩
    · rw [hsame]
      exact h.omits.append e
    · rw [herase, ← append_assoc]
      exact h.omits.replace (by rw [hq, append_assoc]) hx he
  · exact h.omits.append e

theorem Inv.step {s : Session δ} (h : Inv s) (hs : step s a = some t) : Inv t := by
  cases a with
  | submit e =>
    cases hs
    have homits := h.submit e
    have hpend := h.pending
    simp only [Client.sendEvent]
    cases hp : s.client.msgPending with
    | false =>
      rw [hp] at hpend
      exact Inv.next homits hpend
    | true => exact ⟨by simpa using homits, by simpa [hp] using hpend, by simp⟩
  | acknowledge =>
    simp only [Wm.step] at hs
    split at hs
    · cases hs
      have hpend := h.pending
      have hone := Bool.toNat_le s.client.msgPending
      exact Inv.next h.omits (by omega)
    · cases hs

/-- **Events reach the client.**  In every run at most one event is not acknowledged yet; the events that were
sent and those that wait are the submitted ones in their order, without moves of the pointer that have a later
move, so that every other event is there once; when all that was sent is acknowledged nothing waits; and when
nothing waits the last move that was submitted is the last that was sent. -/
theorem sent_right {δ : Type} {s : Session δ} (h : Reach step anyStep Session.start s) :
    s.sent.length ≤ s.acknowledged + 1 ∧ Omits s.submitted (s.sent ++ s.client.eventQ) ∧
    s.submitted.filter (!·.isMove) = (s.sent ++ s.client.eventQ).filter (!·.isMove) ∧
    (s.acknowledged = s.sent.length → s.client.eventQ = []) ∧ (s.client.eventQ = [] →
      (s.submitted.filter Event.isMove).getLast? = (s.sent.filter Event.isMove).getLast?) := by
  have hinv : Inv s := h.invariant Inv ⟨.nil, rfl, fun _ => rfl⟩ fun s a t hs _ ht => hs.step ht
  have hpend := hinv.pending
  refine ⟨?_, hinv.omits, hinv.omits.others, fun hall => hinv.drained ?_, fun hq => ?_⟩
  · have hone := Bool.toNat_le s.client.msgPending
    omega
  · cases hp : s.client.msgPending with
    | false => rfl
    | true =>
      rw [hp, Bool.toNat_true] at hpend
      omega
  · simpa [hq] using hinv.omits.last

/-- A move under way, another one, a button, and a third move that takes the place of the second. -/
def threeMoves : List (Act Unit) :=
  [.submit ⟨1, ()⟩, .submit ⟨1, ()⟩, .submit ⟨2, ()⟩, .submit ⟨1, ()⟩, .acknowledge, .acknowledge]

theorem sent_right_threeMoves : ∃ s, exec step Session.start threeMoves = some s ∧
    s.sent.map Event.type = [1, 2, 1] ∧ s.sent.length ≤ s.acknowledged + 1 := by
  refine ⟨_, rfl, rfl, ?_⟩
  exact (sent_right (Reach.of_exec step anyStep threeMoves _ rfl (guarded_anyStep _ _ _))).1

end Btos.User.Wm
