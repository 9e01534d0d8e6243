import Mathlib.Data.List.Nodup
import Btos.Kernel.Messaging.Content

/-!
# Message objects: the queue and the variables

What the sections of the message manager do to `Message` objects, one operation at a time: a variable is
constructed, gets its id, is pushed to the queue, is destroyed; an element of the queue is erased, or
copied to a variable.

* `Shelf`, `Cmd.eval` — the same with **messages as plain values**, which is what they are meant to be;
* `run_eval` — **the refinement**: an operation on the objects does what it does to the values.  It never
  does anything undefined, and fails only where `malloc` does.
-/

namespace Btos.Kernel.Messaging

open Util.Ministl Function List Message

/-- The memory image of a header, for the receipts that carry one. -/
structure Layout where
  image : MsgHeader → List ℕ
  size : ∀ h, (image h).length = headerSize

def Layout.bytes (L : Layout) : Content → List ℕ
  | .bytes b => b
  | .header h => L.image h

/-- `Message` variables: the one of the `SendMessage` that thread `t` runs, and copies. -/
inductive Key where
  | sender (t : ℕ)
  | copy (n : ℕ)
  deriving DecidableEq, Repr

/-- The objects: the store, the vector `messages`, and the variables that are alive. -/
structure Yard where
  store : Store
  queue : Vector Slot
  vars : List (Key × Slot)

structure Shelf where
  queue : List Message
  vars : Key → Option Message

inductive Cmd where
  /-- `Message msg = header`. -/
  | construct (k : Key) (msg : Message)
  /-- `msg.header.id = …`. -/
  | number (k : Key) (id : ℕ)
  /-- `messages.push_back(msg)`. -/
  | push (k : Key)
  /-- A variable goes out of scope. -/
  | destroy (k : Key)
  /-- `messages.erase(i)`. -/
  | erase (i : ℕ)
  /-- `Message message; GetMessage(id, message)`, where there is one. -/
  | copy (k : Key) (id : ℕ)
  deriving DecidableEq, Repr

/-- The header of a message in memory under its id. -/
def Slot.withID (x : Slot) (id : ℕ) : Slot := { x with header := { x.header with id := id } }

def Yard.var (y : Yard) (k : Key) : Option Slot := y.vars.lookup k

def Cmd.run (M : Malloc) (L : Layout) : Cmd → Yard → Except Fault Yard
  | .construct k msg, y =>
      (constructMessage M msg.header (L.bytes msg.content) y.store).map fun r =>
        { y with store := r.2, vars := (k, r.1) :: y.vars }
  | .number k id, y =>
      .ok { y with vars := y.vars.map fun v => if v.1 = k then (k, v.2.withID id) else v }
  | .push k, y =>
      (defined (y.var k)).bind fun x => (defined (pushBack messageElem x y.queue y.store)).map
        fun r => { y with store := r.2, queue := r.1 }
  | .destroy k, y =>
      (defined (y.var k)).bind fun x => (defined (messageElem.destroy x y.store)).map
        fun st => { y with store := st, vars := y.vars.eraseP fun v => v.1 == k }
  | .erase i, y =>
      (defined (Btos.Util.Ministl.erase messageElem i (i + 1) y.queue y.store)).map
        fun r => { y with store := r.2, queue := r.1 }
  | .copy k id, y =>
      (defined (y.queue.items.find? fun x => x.header.id == id)).bind fun x =>
        (defined (messageElem.assign ⟨x.header, none⟩ x y.store)).map
          fun st => { y with store := st, vars := (k, x) :: y.vars }

/-- The same operation on the values; `none` where it is not possible. -/
def Cmd.eval (L : Layout) : Cmd → Shelf → Option Shelf
  | .construct k msg, s =>
      if s.vars k = none ∧ (L.bytes msg.content).length = msg.header.length then
        some { s with vars := update s.vars k (some msg) }
      else none
  | .number k id, s =>
      (s.vars k).map fun m => { s with vars := update s.vars k (some (m.withID id)) }
  | .push k, s => (s.vars k).map fun m => { s with queue := s.queue ++ [m] }
  | .destroy k, s => (s.vars k).map fun _ => { s with vars := update s.vars k none }
  | .erase i, s => if i < s.queue.length then some { s with queue := s.queue.eraseIdx i } else none
  | .copy k id, s =>
      if s.vars k = none then
        (s.queue.find? (hasID id)).map fun m =>
          { s with vars := update s.vars k (some m) }
      else none

def runAll (M : Malloc) (L : Layout) : List Cmd → Yard → Except Fault Yard
  | [], y => .ok y
  | c :: cs, y => (c.run M L y).bind (runAll M L cs)

def evalAll (L : Layout) : List Cmd → Shelf → Option Shelf
  | [], s => some s
  | c :: cs, s => (c.eval L s).bind (evalAll L cs)

theorem evalAll_append (L : Layout) (cs ds : List Cmd) (s : Shelf) :
    evalAll L (cs ++ ds) s = (evalAll L cs s).bind (evalAll L ds) := by
  induction cs generalizing s with
  | nil => rfl
  | cons c cs ih =>
    show (c.eval L s).bind (evalAll L (cs ++ ds)) = ((c.eval L s).bind (evalAll L cs)).bind _
    cases c.eval L s with
    | none => rfl
    | some s' => exact ih s'

/-! ### Objects and values -/

/-- The object `x` stands for the message `m`. -/
def Rep (L : Layout) (β : Addr → List ℕ) (x : Slot) (m : Message) : Prop :=
  x.header = m.header ∧ ∃ a, x.content = some a ∧ β a = L.bytes m.content

structure Related (L : Layout) (β : Addr → List ℕ) (y : Yard) (s : Shelf) : Prop where
  stocked : Stocked β (y.queue.items ++ y.vars.map Prod.snd) y.store
  fits : y.queue.Fits
  queue : List.Forall₂ (Rep L β) y.queue.items s.queue
  keys : (y.vars.map Prod.fst).Nodup
  var : ∀ {k m}, s.vars k = some m → ∃ x, (k, x) ∈ y.vars ∧ Rep L β x m
  back : ∀ {k x}, (k, x) ∈ y.vars → ∃ m, s.vars k = some m ∧ Rep L β x m

section Lookups

variable {L : Layout} {β : Addr → List ℕ} {y : Yard} {s : Shelf}

variable {m : Message} {k : Key} {x : Slot}

theorem lookup_of_mem {vars : List (Key × Slot)} (hkeys : (vars.map Prod.fst).Nodup) (h : (k, x) ∈ vars) :
    vars.lookup k = some x := by
  induction vars with
  | nil => cases h
  | cons v vars ih =>
    obtain ⟨k', x'⟩ := v
    rw [map_cons, nodup_cons] at hkeys
    rcases mem_cons.1 h with heq | hin
    · cases heq
      exact lookup_cons_self
    · have hne : k ≠ k' := by
        rintro rfl
        exact hkeys.1 (mem_map.2 ⟨(k, x), hin, rfl⟩)
      rw [lookup_cons, beq_false_of_ne hne]
      exact ih hkeys.2 hin

theorem Yard.mem_of_var (h : y.var k = some x) : (k, x) ∈ y.vars := by
  obtain ⟨l1, l2, hl, -⟩ := lookup_eq_some_iff.1 h
  rw [hl]
  exact mem_append_right _ mem_cons_self

theorem Related.var_some (h : Related L β y s) (hk : s.vars k = some m) :
    ∃ x, y.var k = some x ∧ (k, x) ∈ y.vars ∧ Rep L β x m := by
  obtain ⟨x, hx, hrep⟩ := h.var hk
  exact ⟨x, lookup_of_mem h.keys hx, hx, hrep⟩

theorem Related.not_key (h : Related L β y s) (hk : s.vars k = none) : k ∉ y.vars.map Prod.fst := by
  intro hin
  obtain ⟨⟨k', x⟩, hx, rfl⟩ := mem_map.1 hin
  obtain ⟨m, hm, -⟩ := h.back hx
  rw [hk] at hm
  cases hm

theorem Related.mem_live (_h : Related L β y s) (hx : (k, x) ∈ y.vars) :
    x ∈ y.queue.items ++ y.vars.map Prod.snd :=
  mem_append_right _ (mem_map.2 ⟨(k, x), hx, rfl⟩)

theorem Related.contentOf (h : Related L β y s) (hx : x ∈ y.queue.items ++ y.vars.map Prod.snd)
    (hrep : Rep L β x m) : contentOf y.store x = some (L.bytes m.content) := by
  obtain ⟨-, a, ha, hbytes⟩ := hrep
  rw [h.stocked.contentOf hx ha, hbytes]

theorem forall₂_imp_mem (h : List.Forall₂ R items queue) (himp : ∀ x ∈ items, ∀ m, R x m → R' x m) :
    List.Forall₂ R' items queue := by
  induction h with
  | nil => exact .nil
  | cons hrep _ ih =>
    exact .cons (himp _ mem_cons_self _ hrep)
      (ih fun x hx => himp x (mem_cons_of_mem _ hx))

/-- The object that `GetMessage` finds stands for the message that it finds. -/
theorem forall₂_find (h : List.Forall₂ (Rep L β) items queue)
    {id : ℕ} (hm : queue.find? (hasID id) = some m) :
    ∃ x, items.find? (fun x => x.header.id == id) = some x ∧ x ∈ items ∧ Rep L β x m := by
  induction h with
  | nil => cases hm
  | @cons x m' items queue hrep _ ih =>
    have hid : (x.header.id == id) = hasID id m' := by rw [hrep.1]; rfl
    rw [find?_cons] at hm
    cases hhas : hasID id m' with
    | true =>
      rw [hhas] at hm
      cases hm
      exact ⟨x, by rw [find?_cons, hid, hhas], mem_cons_self, hrep⟩
    | false =>
      rw [hhas] at hm
      obtain ⟨x', hx', hin, hrep'⟩ := ih hm
      exact ⟨x', by rw [find?_cons, hid, hhas]; exact hx', mem_cons_of_mem _ hin, hrep'⟩

end Lookups

/-! ### The refinement, operation by operation -/

/-- The operation leads to objects for the values `s`, unless `malloc` fails. -/
def Cmd.Follows (M : Malloc) (L : Layout) (c : Cmd) (y : Yard) (s : Shelf) : Prop :=
  c.run M L y = .error .noMemory ∨ ∃ β y', c.run M L y = .ok y' ∧ Related L β y' s

section

variable {M : Malloc} {L : Layout} {β : Addr → List ℕ} {y : Yard} {s : Shelf} {k : Key}

section

variable (h : Related L β y s)
include h

/-- A new variable `k` that stands for `m`; the other objects are as they were. -/
theorem Related.cons (hk : s.vars k = none)
    (hst : Stocked β' (x :: (y.queue.items ++ y.vars.map Prod.snd)) st) (hx : Rep L β' x m)
    (hold : ∀ {x m}, x ∈ y.queue.items ++ y.vars.map Prod.snd → Rep L β x m → Rep L β' x m) :
    Related L β' { y with store := st, vars := (k, x) :: y.vars }
      { s with vars := update s.vars k (some m) } where
  stocked := hst.perm perm_middle.symm
  fits := h.fits
  queue := by
    have hall : ∀ x ∈ y.queue.items, ∀ m, Rep L β x m → Rep L β' x m :=
      fun x hx m hrep => hold (mem_append_left _ hx) hrep
    exact forall₂_imp_mem h.queue hall
  keys := nodup_cons.2 ⟨h.not_key hk, h.keys⟩
  var {k' m'} hk' := by
    have hk' : update s.vars k (some m) k' = some m' := hk'
    by_cases heq : k' = k
    · subst heq
      rw [update_self] at hk'
      cases hk'
      exact ⟨x, mem_cons_self, hx⟩
    · rw [update_of_ne heq] at hk'
      obtain ⟨x', hin, hrep⟩ := h.var hk'
      exact ⟨x', mem_cons_of_mem _ hin, hold (h.mem_live hin) hrep⟩
  back {k' x'} hin := by
    show ∃ m', update s.vars k (some m) k' = some m' ∧ _
    rcases mem_cons.1 hin with heq | hin
    · cases heq
      exact ⟨m, update_self .., hx⟩
    · obtain ⟨m', hm', hrep⟩ := h.back hin
      have hne : k' ≠ k := by
        rintro rfl
        rw [hk] at hm'
        cases hm'
      exact ⟨m', (update_of_ne hne ..).trans hm', hold (h.mem_live hin) hrep⟩

theorem run_construct (hk : s.vars k = none)
    (hlen : (L.bytes msg.content).length = msg.header.length) :
    (Cmd.construct k msg).Follows M L y { s with vars := update s.vars k (some msg) } := by
  rcases constructMessage_spec M h.stocked hlen with hno | ⟨a, st', hnew, hnot, hst'⟩
  · left
    rw [Cmd.run, hno]
    rfl
  · right
    refine ⟨_, _, by rw [Cmd.run, hnew]; rfl, h.cons hk hst' ⟨rfl, a, rfl, update_self ..⟩ ?_⟩
    rintro x m hx ⟨hhd, a', ha', hbytes⟩
    -- the new object is none of those that are alive
    have hne : a' ≠ a := by
      rintro rfl
      exact hnot (mem_filterMap.2 ⟨x, hx, ha'⟩)
    exact ⟨hhd, a', ha', (update_of_ne hne ..).trans hbytes⟩

theorem run_copy {id : ℕ} (hk : s.vars k = none)
    (hm : s.queue.find? (hasID id) = some m) :
    (Cmd.copy k id).Follows M L y { s with vars := update s.vars k (some m) } := by
  obtain ⟨x, hfind, hin, hrep⟩ := forall₂_find h.queue hm
  obtain ⟨st', hassign, hst'⟩ := (messageElem_sound β).assign (d := ⟨x.header, none⟩)
    ((stocked_cons_none rfl).2 h.stocked) (mem_cons_of_mem _ (mem_append_left _ hin))
  refine .inr ⟨β, _, ?_, h.cons hk hst' hrep fun _ hrep => hrep⟩
  simp only [Cmd.run, hfind, defined, Option.elim_some, Except.bind, hassign, Except.map]

/-- The order of the variables does not matter. -/
theorem Related.perm (hp : y.vars.Perm vars) : Related L β { y with vars := vars } s where
  stocked := h.stocked.perm ((hp.map _).append_left _)
  fits := h.fits
  queue := h.queue
  keys := (hp.map _).nodup_iff.1 h.keys
  var hk := by
    obtain ⟨x, hx, hrep⟩ := h.var hk
    exact ⟨x, hp.subset hx, hrep⟩
  back hx := h.back (hp.symm.subset hx)

/-- The variable `k` goes, and its object is destroyed. -/
theorem Related.without (hm : s.vars k = some m) :
    ∃ x l₁ l₂ st, y.vars = l₁ ++ (k, x) :: l₂ ∧ (∀ v ∈ l₁ ++ l₂, v.1 ≠ k) ∧ y.var k = some x ∧ Rep L β x m ∧
      Stocked β (x :: (y.queue.items ++ (l₁ ++ l₂).map Prod.snd)) y.store ∧
      messageElem.destroy x y.store = some st ∧
      Related L β { y with store := st, vars := l₁ ++ l₂ } { s with vars := update s.vars k none } := by
  obtain ⟨x, hvar, hin, hrep⟩ := h.var_some hm
  obtain ⟨l₁, l₂, hvars⟩ := append_of_mem hin
  have hmid := hvars ▸ perm_middle
  have hkeys := (hmid.map Prod.fst).nodup_iff.1 h.keys
  rw [map_cons, nodup_cons] at hkeys
  have hst := h.stocked.perm (((hmid.map Prod.snd).append_left _).trans perm_middle)
  obtain ⟨st, hdestroy, hst'⟩ := (messageElem_sound β).destroy hst
  have hne : ∀ v ∈ l₁ ++ l₂, v.1 ≠ k := by
    rintro v hv rfl
    exact hkeys.1 (mem_map.2 ⟨v, hv, rfl⟩)
  refine ⟨x, l₁, l₂, st, hvars, hne, hvar, hrep, hst, hdestroy, hst', h.fits, h.queue, hkeys.2, ?_, ?_⟩
  · intro k' m' hk'
    have hk' : update s.vars k none k' = some m' := hk'
    have hkk : k' ≠ k := by
      rintro rfl
      rw [update_self] at hk'
      cases hk'
    rw [update_of_ne hkk] at hk'
    obtain ⟨x', hin', hrep'⟩ := h.var hk'
    rcases mem_cons.1 (hmid.subset hin') with heq | hin'
    · cases heq
      exact absurd rfl hkk
    · exact ⟨x', hin', hrep'⟩
  · intro k' x' hin'
    obtain ⟨m', hm', hrep'⟩ := h.back (hmid.symm.subset (mem_cons_of_mem _ hin'))
    exact ⟨m', (update_of_ne (hne _ hin') ..).trans hm', hrep'⟩

end

theorem run_number (id : ℕ) (h : Related L β y s) (hm : s.vars k = some m) :
    (Cmd.number k id).Follows M L y { s with vars := update s.vars k (some (m.withID id)) } := by
  obtain ⟨x, l1, l2, st, hvars, hne, -, ⟨hhd, a, ha, hbytes⟩, hst, -, hrel⟩ := h.without hm
  have hrep : Rep L β (x.withID id) (m.withID id) := ⟨by rw [Slot.withID, withID, hhd], a, ha, hbytes⟩
  have hst' : Stocked β (x.withID id :: (y.queue.items ++ (l1 ++ l2).map Prod.snd)) y.store :=
    { hst with counted := hst.counted }
  have hnew := (hrel.cons (update_self ..) hst' hrep fun _ hrep => hrep).perm perm_middle.symm
  have hmap : ∀ l : List (Key × Slot), (∀ v ∈ l, v.1 ≠ k) →
      (l.map fun v => if v.1 = k then (k, v.2.withID id) else v) = l := by
    intro l hl
    conv_rhs => rw [← map_id l]
    exact map_congr_left fun v hv => if_neg (hl v hv)
  rw [forall_mem_append] at hne
  refine .inr ⟨β, _, rfl, ?_⟩
  rw [hvars, map_append, map_cons, if_pos rfl, hmap l1 hne.1, hmap l2 hne.2]
  rw [update_idem] at hnew
  exact hnew

theorem run_push (h : Related L β y s) (hm : s.vars k = some m) :
    (Cmd.push k).Follows M L y { s with queue := s.queue ++ [m] } := by
  obtain ⟨x, hvar, hin, hrep⟩ := h.var_some hm
  obtain ⟨v', st', hpush, hitems, hfits, -, hst'⟩ := pushBack_spec (messageElem_sound β) h.fits
    h.stocked ((messageElem_sound β).mem (h.mem_live hin))
  refine .inr ⟨β, { y with store := st', queue := v' }, ?_, ?_, hfits, ?_, h.keys, h.var, h.back⟩
  · simp only [Cmd.run, hvar, defined, Option.elim_some, Except.bind, hpush, Except.map]
  · show Stocked β (v'.items ++ _) st'
    rw [hitems]
    exact hst'
  · show List.Forall₂ (Rep L β) v'.items (s.queue ++ [m])
    rw [hitems]
    exact rel_append h.queue (List.Forall₂.cons hrep List.Forall₂.nil)

theorem run_erase (h : Related L β y s) (hi : i < s.queue.length) :
    (Cmd.erase i).Follows M L y { s with queue := s.queue.eraseIdx i } := by
  have hlen : i + 1 ≤ y.queue.items.length := by
    rw [h.queue.length_eq]
    exact hi
  obtain ⟨st', herase, hfits, hst'⟩ := erase_spec (messageElem_sound β) h.fits (Nat.lt_succ_self i)
    hlen h.stocked
  refine .inr ⟨β, { y with store := st', queue := ⟨y.queue.items.take i ++ y.queue.items.drop (i + 1), _⟩ },
    ?_, hst', hfits, ?_, h.keys, h.var, h.back⟩
  · simp only [Cmd.run, herase, defined, Option.elim_some, Except.map]
  · show List.Forall₂ (Rep L β) _ (s.queue.eraseIdx i)
    rw [eraseIdx_eq_take_drop_succ]
    exact rel_append (forall₂_take i h.queue) (forall₂_drop (i + 1) h.queue)

theorem run_destroy (h : Related L β y s) (hm : s.vars k = some m) :
    (Cmd.destroy k).Follows M L y { s with vars := update s.vars k none } := by
  obtain ⟨x, l1, l2, st, hvars, hne, hvar, -, -, hdestroy, hrel⟩ := h.without hm
  have herase : (y.vars.eraseP fun v => v.1 == k) = l1 ++ l2 := by
    rw [hvars, eraseP_append_right]
    · simp
    intro v hv
    simpa using hne v (mem_append_left _ hv)
  refine .inr ⟨β, _, ?_, hrel⟩
  simp only [Cmd.run, hvar, defined, Option.elim_some, Except.bind, hdestroy, Except.map, herase]

end

/-- **One operation.**  What it does to the objects is what it does to the values, unless `malloc`
fails. -/
theorem run_eval {M : Malloc} {L : Layout} {β : Addr → List ℕ} {y : Yard} {s s' : Shelf} {c : Cmd}
    (h : Related L β y s) (hc : c.eval L s = some s') : c.Follows M L y s' := by
  cases c with
  | construct k msg =>
    simp only [Cmd.eval] at hc
    split at hc
    · rename_i hcond
      cases hc
      exact run_construct h hcond.1 hcond.2
    · cases hc
  | number k id =>
    obtain ⟨m, hm, rfl⟩ := Option.map_eq_some_iff.1 hc
    exact run_number id h hm
  | push k =>
    obtain ⟨m, hm, rfl⟩ := Option.map_eq_some_iff.1 hc
    exact run_push h hm
  | destroy k =>
    obtain ⟨m, hm, rfl⟩ := Option.map_eq_some_iff.1 hc
    exact run_destroy h hm
  | erase i =>
    simp only [Cmd.eval] at hc
    split at hc
    · rename_i hi
      cases hc
      exact run_erase h hi
    · cases hc
  | copy k id =>
    simp only [Cmd.eval] at hc
    split at hc
    · rename_i hk
      obtain ⟨m, hm, rfl⟩ := Option.map_eq_some_iff.1 hc
      exact run_copy h hk hm
    · cases hc

/-- **A list of operations.** -/
theorem runAll_evalAll {M : Malloc} {L : Layout} (cs : List Cmd) : ∀ {β : Addr → List ℕ} {y : Yard}
    {s s' : Shelf}, Related L β y s → evalAll L cs s = some s' → runAll M L cs y = .error .noMemory ∨
        ∃ β' y', runAll M L cs y = .ok y' ∧ Related L β' y' s' := by
  induction cs with
  | nil =>
    intro β y s s' h hs
    cases hs
    exact .inr ⟨β, y, rfl, h⟩
  | cons c cs ih =>
    intro β y s s' h hs
    obtain ⟨s1, hs1, hrest⟩ := Option.bind_eq_some_iff.1 hs
    rcases run_eval h hs1 with hno | ⟨β1, y1, hrun, hrel⟩
    · rw [runAll, hno]
      exact .inl rfl
    · rw [runAll, hrun]
      exact ih hrel hrest

end Btos.Kernel.Messaging
