import Btos.Kernel.Messaging.Manager
import Btos.Lib.RefCount
import Btos.Util.Ministl

/-!
# The contents of messages in memory

`kernel/messaging.cpp`: a `Message` is a header and a counted pointer to a `MessageContent`, which owns
a `vector<char>`.  When the last copy of a message dies, its vector goes to the `ContentBufferPool`
(at most 32 of them), and a later message takes it from there and resizes it.

* `Stocked` — **the invariant**: counts are right, every object has a vector of its own that is not in the
  pool, and the vector holds the bytes `β` of its message.

A count is a natural number: each reference is a pointer in memory, so there are fewer than `2 ^ 32`.
-/

namespace Btos.Kernel.Messaging

open Lib.RefCount Util.Ministl Function List Option

abbrev Addr := ℕ

/-- `malloc` for the two kinds of objects: it gives an address that is not in use, or none. -/
structure Malloc where
  newObject : Heap (Option Addr) → Option Addr
  newBuffer : (Addr → Option (Vector ℕ)) → Option Addr
  object_fresh : ∀ {h a}, newObject h = some a → h a = none
  buffer_fresh : ∀ {f b}, newBuffer f = some b → f b = none

/-- The `MessageContent` objects (count and `content` pointer), the vectors they point to, and
`ContentBufferPool`. -/
structure Store where
  objects : Heap (Option Addr)
  buffers : Addr → Option (Vector ℕ)
  pool : Vector Addr

def maxContentBufferPoolSize : ℕ := 32

/-- The memory after `Messaging_Init`. -/
def Store.empty : Store := ⟨fun _ => none, fun _ => none, .empty⟩

/-- How an operation can end badly: `malloc` fails and the kernel panics, or it does something that C++
does not define (a dead object, a write behind the memory). -/
inductive Fault where
  | noMemory
  | undefined
  deriving DecidableEq, Repr

/-- The result of `malloc`. -/
def allocated {α : Type} (r : Option α) : Except Fault α := r.elim (.error .noMemory) .ok

/-- The result of an operation that may be undefined. -/
def defined {α : Type} (r : Option α) : Except Fault α := r.elim (.error .undefined) .ok

theorem map_eq_ok {α γ : Type} {r : Except Fault α} {f : α → γ} {y : γ} (h : r.map f = .ok y) :
    ∃ x, r = .ok x ∧ f x = y := by
  cases r with
  | error e => cases h
  | ok x => exact ⟨x, rfl, Except.ok.inj h⟩

def newContentBuffer (M : Malloc) (st : Store) : Except Fault (Addr × Store) :=
  match st.pool.items.getLast? with
  | some b => (defined (popBack Elem.plain st.pool ())).map fun r => (b, { st with pool := r.1 })
  | none => (allocated (M.newBuffer st.buffers)).map fun b =>
      (b, { st with buffers := update st.buffers b (some .empty) })

def releaseContentBuffer (b : Addr) (st : Store) : Option Store :=
  if st.pool.items.length < maxContentBufferPoolSize then
    (pushBack Elem.plain b st.pool ()).map fun r => { st with pool := r.1 }
  else some { st with buffers := update st.buffers b none }

/-- The constructor of `MessageContent`: the `content` pointer, for the bytes that the header points
to. -/
def newMessageContent (M : Malloc) (bytes : List ℕ) (st : Store) :
    Except Fault (Option Addr × Store) :=
  if bytes.length ≠ 0 then
    (newContentBuffer M st).bind fun r => (defined (r.2.buffers r.1)).bind fun v =>
      (defined (resize Elem.plain 0 bytes.length v ())).map fun q =>
        -- `memcpy` over the first elements
        let v := { q.1 with items := bytes ++ q.1.items.drop bytes.length }
        (some r.1, { r.2 with buffers := update r.2.buffers r.1 (some v) })
  else .ok (none, st)

def incrementRefCount (a : Addr) (st : Store) : Option Store :=
  (incr a st.objects).map fun h => { st with objects := h }

/-- `DecrementRefCount`, with the destructor of `MessageContent` at zero. -/
def decrementRefCount (a : Addr) (st : Store) : Option Store :=
  (decr a st.objects).bind fun r =>
    match r.2 with
    | some (some b) => releaseContentBuffer b { st with objects := r.1 }
    | _ => some { st with objects := r.1 }

/-- `Message` in memory: the header and the counted pointer. -/
structure Slot where
  header : MsgHeader
  content : Option Addr
  deriving DecidableEq, Repr

/-- `Message(const bt_msg_header &h)`, for the bytes at `h.content`. -/
def constructMessage (M : Malloc) (h : MsgHeader) (bytes : List ℕ) (st : Store) :
    Except Fault (Slot × Store) :=
  if bytes.length = h.length then
    (allocated (M.newObject st.objects)).bind fun a => (newMessageContent M bytes st).map fun r =>
      (⟨h, some a⟩, { r.2 with objects := new a r.1 r.2.objects })
  else .error .undefined

/-- `Message` as an element: its copy constructor, assignment and destructor are those of the counted
pointer. -/
def messageElem : Elem Store Slot where
  copy x st :=
    match x.content with
    | some a => incrementRefCount a st
    | none => some st
  assign dst src st :=
    if src.content ≠ dst.content then
      (match src.content with
        | some a => incrementRefCount a st
        | none => some st).bind fun st =>
      match dst.content with
      | some a => decrementRefCount a st
      | none => some st
    else some st
  destroy x st :=
    match x.content with
    | some a => decrementRefCount a st
    | none => some st

/-- What `MessageContent` returns for a message: a copy of the vector, or nothing; `none` if the pointer
or the vector is dead. -/
def contentOf (st : Store) (x : Slot) : Option (List ℕ) :=
  x.content.bind fun a => (payload st.objects a).bind fun content =>
    match content with
    | some b => (st.buffers b).map fun v => v.items
    | none => some []

/-! ### The invariant -/

def pointers (l : List Slot) : List Addr := l.filterMap Slot.content

/-- Two objects never hold one buffer, and the pool holds only buffers that no object holds. -/
structure Apart (st : Store) : Prop where
  objects : ∀ {a a' b}, payload st.objects a = some (some b) → payload st.objects a' = some (some b) → a = a'
  pool : ∀ {a b}, payload st.objects a = some (some b) → b ∉ st.pool.items
  poolNodup : st.pool.items.Nodup

/-- The memory is in order for the live messages `l`, and object `a` has the bytes `β a`. -/
structure Stocked (β : Addr → List ℕ) (l : List Slot) (st : Store) : Prop where
  counted : Counted (pointers l) st.objects
  apart : Apart st
  held : ∀ {a b}, payload st.objects a = some (some b) → ∃ v, st.buffers b = some v ∧ v.items = β a ∧ v.Fits
  bare : ∀ {a}, payload st.objects a = some none → β a = []
  poolFits : st.pool.Fits
  pooled : ∀ {b}, b ∈ st.pool.items → ∃ v, st.buffers b = some v ∧ v.Fits

theorem stocked_empty (β : Addr → List ℕ) : Stocked β [] Store.empty where
  counted := counted_nil
  apart := ⟨nofun, nofun, nodup_nil⟩
  held h := by cases h
  bare h := by cases h
  poolFits := Vector.empty_fits
  pooled h := by cases h

theorem Stocked.perm (h : Stocked β l st) (hp : l.Perm l') : Stocked β l' st :=
  { h with counted := h.counted.perm (hp.filterMap _) }

/-- **What is read from a live message.** -/
theorem Stocked.contentOf (h : Stocked β l st) (hx : x ∈ l) (ha : x.content = some a) : contentOf st x = some (β a) := by
  have hin : a ∈ pointers l := mem_filterMap.2 ⟨x, hx, ha⟩
  obtain ⟨content, hobj⟩ := h.counted.some hin
  have hpay : payload st.objects a = some content := by rw [payload, hobj]; rfl
  rw [Messaging.contentOf, ha, bind_some, hpay, bind_some]
  cases content with
  | none => rw [h.bare hpay]
  | some b =>
    obtain ⟨v, hv, hitems, -⟩ := h.held hpay
    show (st.buffers b).map _ = _
    rw [hv, map_some, hitems]

/-! ### The counted pointer -/

section

variable {β : Addr → List ℕ} {l : List Slot} {st : Store} {x : Slot} {a : Addr}

section

variable (h : Stocked β l st)
include h

/-- The objects that are left are as before, and so are the buffers in use. -/
theorem Stocked.frame {st' : Store} (hc : Counted (pointers l') st'.objects)
    (hback : ∀ {a c}, payload st'.objects a = some c → payload st.objects a = some c)
    (hpool : st'.pool = st.pool) (hbuf : ∀ {b}, (∃ a, payload st'.objects a = some (some b)) ∨
      b ∈ st.pool.items → st'.buffers b = st.buffers b) : Stocked β l' st' where
  counted := hc
  apart := ⟨fun h₁ h₂ => h.apart.objects (hback h₁) (hback h₂), fun h₁ => hpool ▸ h.apart.pool (hback h₁),
    hpool ▸ h.apart.poolNodup⟩
  held h₁ := by
    rw [hbuf (.inl ⟨_, h₁⟩)]
    exact h.held (hback h₁)
  bare h₁ := h.bare (hback h₁)
  poolFits := hpool ▸ h.poolFits
  pooled hb := by
    rw [hpool] at hb
    rw [hbuf (.inr hb)]
    exact h.pooled hb

theorem Stocked.write (hfree : ∀ a, payload st.objects a ≠ some (some b))
    (hpool : b ∉ st.pool.items) (v : Option (Vector ℕ)) :
    Stocked β l { st with buffers := update st.buffers b v } := by
  refine h.frame h.counted id rfl fun {b'} hused => ?_
  have hne : b' ≠ b := by
    rintro rfl
    exact hused.elim (fun ⟨a, ha⟩ => hfree a ha) hpool
  exact update_of_ne hne ..

theorem incrementRefCount_spec (hin : a ∈ pointers l) (hx : x.content = some a) :
    ∃ st', incrementRefCount a st = some st' ∧ Stocked β (x :: l) st' := by
  obtain ⟨o, ho, hc, hpay⟩ := incr_spec h.counted hin
  refine ⟨{ st with objects := o }, by rw [incrementRefCount, ho]; rfl, ?_⟩
  rw [pointers, ← filterMap_cons_some hx] at hc
  exact h.frame hc (fun h1 => (hpay _).symm.trans h1) rfl fun _ => rfl

theorem releaseContentBuffer_spec
    (hb : st.buffers b = some v) (hv : v.Fits) (hpool : b ∉ st.pool.items)
    (hfree : ∀ a, payload st.objects a ≠ some (some b)) :
    ∃ st', releaseContentBuffer b st = some st' ∧ Stocked β l st' := by
  unfold releaseContentBuffer
  by_cases hroom : st.pool.items.length < maxContentBufferPoolSize
  · obtain ⟨p, s', hp, hitems, hfits, -, -⟩ := pushBack_spec (r := []) Elem.plain_sound h.poolFits trivial trivial
    refine ⟨{ st with pool := p }, by rw [if_pos hroom, hp]; rfl, ?_⟩
    refine ⟨h.counted, ⟨h.apart.objects, ?_, ?_⟩, h.held, h.bare, hfits, ?_⟩
    · intro a b' ha
      show b' ∉ p.items
      rw [hitems, mem_append, mem_singleton]
      rintro (hin | rfl)
      · exact h.apart.pool ha hin
      · exact hfree a ha
    · show p.items.Nodup
      rw [hitems]
      refine nodup_append.2 ⟨h.apart.poolNodup, pairwise_singleton _ _, ?_⟩
      intro c hc d hd hcd
      rw [mem_singleton.1 hd] at hcd
      exact hpool (hcd ▸ hc)
    · intro b' hb'
      have hmem : b' ∈ st.pool.items ++ [b] := hitems ▸ hb'
      rcases mem_append.1 hmem with hin | hin
      · exact h.pooled hin
      · rw [mem_singleton.1 hin]
        exact ⟨v, hb, hv⟩
  · exact ⟨_, if_neg hroom, h.write hfree hpool none⟩

end

theorem decrementRefCount_spec (h : Stocked β (x :: l) st) (hx : x.content = some a) :
    ∃ st', decrementRefCount a st = some st' ∧ Stocked β l st' := by
  have hc := h.counted
  rw [pointers, filterMap_cons_some hx] at hc
  obtain ⟨o, freed, ho, hc', hrest, hkept, hgone⟩ := decr_spec hc
  -- the objects that are left are as before
  have hback : ∀ {a' c}, payload o a' = some c → payload st.objects a' = some c := by
    intro a' c hpay
    by_cases hne : a' = a
    · subst hne
      by_cases hin : a' ∈ l.filterMap Slot.content
      · rw [(hkept hin).2] at hpay
        exact hpay
      · rw [(hgone hin).2] at hpay
        cases hpay
    · rw [hrest a' hne] at hpay
      exact hpay
  have hmid : Stocked β l { st with objects := o } := h.frame hc' hback rfl fun _ => rfl
  rw [decrementRefCount, ho]
  by_cases hin : a ∈ l.filterMap Slot.content
  · rw [(hkept hin).1]
    exact ⟨_, rfl, hmid⟩
  · obtain ⟨hfreed, hdead⟩ := hgone hin
    subst hfreed
    cases hpay : payload st.objects a with
    | none => exact ⟨_, rfl, hmid⟩
    | some content =>
      cases content with
      | none => exact ⟨_, rfl, hmid⟩
      | some b =>
        obtain ⟨v, hv, -, hfits⟩ := h.held hpay
        refine releaseContentBuffer_spec hmid hv hfits (h.apart.pool hpay) ?_
        intro a' ha'
        have heq : a' = a := h.apart.objects (hback ha') hpay
        rw [heq] at ha'
        exact absurd (hdead.symm.trans ha') (by simp)

end

theorem stocked_cons_none (hx : x.content = none) : Stocked β (x :: l) st ↔ Stocked β l st := by
  have heq : pointers (x :: l) = pointers l := filterMap_cons_none hx
  constructor
  · intro h
    exact { h with counted := heq ▸ h.counted }
  · intro h
    exact { h with counted := heq.symm ▸ h.counted }

/-- A message may be copied if it has no pointer, or one that a live message has too. -/
def Copyable (l : List Slot) (x : Slot) : Prop := ∀ a, x.content = some a → a ∈ pointers l

/-- **Messages are sound elements** for the kernel's vector. -/
theorem messageElem_sound (β : Addr → List ℕ) : messageElem.Sound (Stocked β) Copyable where
  perm h hp := h.perm hp
  mem hx a ha := mem_filterMap.2 ⟨_, hx, ha⟩
  copy {l x st} h hx := by
    cases hc : x.content with
    | none => exact ⟨st, by simp [messageElem, hc], (stocked_cons_none hc).2 h⟩
    | some a =>
      obtain ⟨st', h', hst'⟩ := incrementRefCount_spec h (hx a hc) hc
      exact ⟨st', by simpa [messageElem, hc] using h', hst'⟩
  assign {d l x st} h hx := by
    by_cases heq : x.content = d.content
    · refine ⟨st, by simp [messageElem, heq], ?_⟩
      have hp : pointers (x :: l) = pointers (d :: l) := by
        rw [pointers, pointers, filterMap_cons, filterMap_cons, heq]
      exact { h with counted := hp ▸ h.counted }
    · -- the new pointer is counted before the old one is given back
      obtain ⟨st1, h1, hst1⟩ : ∃ st1, (match x.content with
          | some a => incrementRefCount a st
          | none => some st) = some st1 ∧ Stocked β (x :: d :: l) st1 := by
        cases hc : x.content with
        | none => exact ⟨st, rfl, (stocked_cons_none hc).2 h⟩
        | some a => exact incrementRefCount_spec h (mem_filterMap.2 ⟨x, hx, hc⟩) hc
      obtain ⟨st2, h2, hst2⟩ : ∃ st2, (match d.content with
          | some a => decrementRefCount a st1
          | none => some st1) = some st2 ∧ Stocked β (x :: l) st2 := by
        have hswap := hst1.perm (List.Perm.swap d x l)
        cases hc : d.content with
        | none => exact ⟨st1, rfl, (stocked_cons_none hc).1 hswap⟩
        | some a => exact decrementRefCount_spec hswap hc
      refine ⟨st2, ?_, hst2⟩
      simp only [messageElem, if_pos heq, h1, bind_some, h2]
  destroy {x l st} h := by
    cases hc : x.content with
    | none => exact ⟨st, by simp [messageElem, hc], (stocked_cons_none hc).1 h⟩
    | some a =>
      obtain ⟨st', h', hst'⟩ := decrementRefCount_spec h hc
      exact ⟨st', by simpa [messageElem, hc] using h', hst'⟩

/-! ### New messages -/

section

variable {β : Addr → List ℕ} {l : List Slot} {st : Store} (M : Malloc)

/-- A buffer to write to: no object holds it, and it is not in the pool. -/
structure Spare (b : Addr) (v : Vector ℕ) (st : Store) : Prop where
  buffer : st.buffers b = some v
  fits : v.Fits
  unheld : ∀ a, payload st.objects a ≠ some (some b)
  unpooled : b ∉ st.pool.items

/-- `NewContentBuffer` gives a spare buffer, if there is memory. -/
theorem newContentBuffer_spec (h : Stocked β l st) :
    newContentBuffer M st = .error .noMemory ∨ ∃ b v st', newContentBuffer M st = .ok (b, st') ∧
      Stocked β l st' ∧ st'.objects = st.objects ∧ Spare b v st' := by
  unfold newContentBuffer
  cases hlast : st.pool.items.getLast? with
  | some b =>
    obtain ⟨pre, hpre⟩ := getLast?_eq_some_iff.1 hlast
    have hlen : st.pool.items.length = pre.length + 1 := by
      rw [hpre, length_append, length_singleton]
    obtain ⟨s', hpop, hfits, -⟩ := erase_spec (r := []) Elem.plain_sound h.poolFits
      (i := st.pool.items.length - 1) (j := st.pool.items.length - 1 + 1) (by omega)
      (by omega) trivial
    have hitems : st.pool.items.take (st.pool.items.length - 1) ++
        st.pool.items.drop (st.pool.items.length - 1 + 1) = pre := by
      rw [hlen, Nat.add_sub_cancel, ← hlen, drop_length, append_nil, hpre, take_left]
    rw [hitems] at hpop hfits
    obtain ⟨hpreNodup, -, hdisj⟩ := nodup_append.1 (hpre ▸ h.apart.poolNodup)
    have hsub : pre ⊆ st.pool.items := by
      rw [hpre]
      exact subset_append_left _ _
    have hin : b ∈ st.pool.items := by
      rw [hpre]
      exact mem_append_right _ (mem_singleton.2 rfl)
    obtain ⟨v, hv, hvfits⟩ := h.pooled hin
    refine .inr ⟨b, v, { st with pool := ⟨pre, st.pool.reserved⟩ }, ?_, ?_, rfl, hv, hvfits, ?_, ?_⟩
    · rw [popBack, hpop]
      rfl
    · exact ⟨h.counted, ⟨h.apart.objects, fun ha hb => h.apart.pool ha (hsub hb), hpreNodup⟩,
        h.held, h.bare, hfits, fun hb => h.pooled (hsub hb)⟩
    · intro a ha
      exact h.apart.pool ha hin
    · intro hb
      exact hdisj b hb b (mem_singleton.2 rfl) rfl
  | none =>
    cases hb : M.newBuffer st.buffers with
    | none => exact .inl rfl
    | some b =>
      have hfresh := M.buffer_fresh hb
      have hother : ∀ {b' v}, st.buffers b' = some v → b' ≠ b := by
        rintro b' v hv rfl
        rw [hfresh] at hv
        cases hv
      have hunheld : ∀ a, payload st.objects a ≠ some (some b) := by
        intro a ha
        obtain ⟨v, hv, -⟩ := h.held ha
        exact hother hv rfl
      have hunpooled : b ∉ st.pool.items := by
        intro hb'
        obtain ⟨v, hv, -⟩ := h.pooled hb'
        exact hother hv rfl
      exact .inr ⟨b, .empty, _, rfl, h.write hunheld hunpooled _, rfl, update_self .., Vector.empty_fits,
        hunheld, hunpooled⟩

/-- The `content` pointer of a new object: a spare buffer with its bytes, or no buffer for no bytes. -/
def ReadyFor (bytes : List ℕ) (st : Store) : Option Addr → Prop
  | none => bytes = []
  | some b => ∃ v, Spare b v st ∧ v.items = bytes

theorem newMessageContent_spec (h : Stocked β l st) (bytes : List ℕ) :
    newMessageContent M bytes st = .error .noMemory ∨ ∃ content st',
      newMessageContent M bytes st = .ok (content, st') ∧ Stocked β l st' ∧
        st'.objects = st.objects ∧ ReadyFor bytes st' content := by
  unfold newMessageContent
  by_cases hlen : bytes.length ≠ 0
  · rw [if_pos hlen]
    rcases newContentBuffer_spec M h with hno | ⟨b, v, st1, hbuf, hst1, hobj, hspare⟩
    · rw [hno]
      exact .inl rfl
    obtain ⟨v2, hres, hsize, hfits⟩ := resize_plain 0 (Nat.pos_of_ne_zero hlen) v hspare.fits
    have hdrop : v2.items.drop bytes.length = [] := by rw [← hsize, drop_length]
    refine .inr ⟨some b, _, ?_, hst1.write hspare.unheld hspare.unpooled _, hobj,
      ⟨bytes, v2.reserved⟩, ⟨update_self .., ⟨hsize ▸ hfits.1, hfits.2⟩, hspare.unheld, hspare.unpooled⟩, rfl⟩
    rw [hbuf]
    show (defined (st1.buffers b)).bind _ = _
    rw [hspare.buffer]
    show (defined (resize Elem.plain 0 bytes.length v ())).map _ = _
    rw [hres]
    have hitems : bytes ++ v2.items.drop bytes.length = bytes := by rw [hdrop, append_nil]
    simp only [defined, elim_some, Except.map, hitems]
  · rw [if_neg hlen]
    exact .inr ⟨none, st, rfl, h, rfl, length_eq_zero_iff.1 (not_not.1 hlen)⟩

/-- **`Message(const bt_msg_header &)`**: a new object with the bytes of its header; the others keep
theirs. -/
theorem constructMessage_spec (h : Stocked β l st) (hlen : bytes.length = hd.length) :
    constructMessage M hd bytes st = .error .noMemory ∨ ∃ a st',
      constructMessage M hd bytes st = .ok (⟨hd, some a⟩, st') ∧ a ∉ pointers l ∧
        Stocked (update β a bytes) (⟨hd, some a⟩ :: l) st' := by
  unfold constructMessage
  rw [if_pos hlen]
  cases ha : M.newObject st.objects with
  | none => exact .inl rfl
  | some a =>
    rcases newMessageContent_spec M h bytes with hno | ⟨content, st1, hcontent, hst1, hobj, hbytes⟩
    · rw [hno]
      exact .inl rfl
    right
    rw [hcontent]
    have hfree : st1.objects a = none := by
      rw [hobj]
      exact M.object_fresh ha
    obtain ⟨hnot, hcounted⟩ := new_spec hst1.counted hfree content
    have hready : ∀ {b}, content = some b → ∃ v, Spare b v st1 ∧ v.items = bytes := by
      rintro b rfl
      exact hbytes
    refine ⟨a, _, rfl, hnot, hcounted, ⟨?_, ?_, hst1.apart.poolNodup⟩, ?_, ?_, hst1.poolFits, hst1.pooled⟩
    · intro a1 a2 b h1 h2
      rcases payload_new h1 with ⟨rfl, heq1⟩ | ⟨-, hold1⟩ <;>
        rcases payload_new h2 with ⟨rfl, heq2⟩ | ⟨-, hold2⟩
      · rfl
      · obtain ⟨v, hspare, -⟩ := hready heq1
        exact absurd hold2 (hspare.unheld a2)
      · obtain ⟨v, hspare, -⟩ := hready heq2
        exact absurd hold1 (hspare.unheld a1)
      · exact hst1.apart.objects hold1 hold2
    · intro a1 b h1
      rcases payload_new h1 with ⟨rfl, heq⟩ | ⟨-, h1⟩
      · obtain ⟨v, hspare, -⟩ := hready heq
        exact hspare.unpooled
      · exact hst1.apart.pool h1
    · intro a1 b h1
      rcases payload_new h1 with ⟨rfl, heq⟩ | ⟨hne, h1⟩
      · obtain ⟨v, hspare, hitems⟩ := hready heq
        exact ⟨v, hspare.buffer, by rw [update_self, hitems], hspare.fits⟩
      · rw [update_of_ne hne]
        exact hst1.held h1
    · intro a1 h1
      rcases payload_new h1 with ⟨rfl, rfl⟩ | ⟨hne, h1⟩
      · rw [update_self]
        exact hbytes
      · rw [update_of_ne hne]
        exact hst1.bare h1

end

end Btos.Kernel.Messaging
