import Btos.Modules.Ata.Device

/-!
# Calls and their operations

A call puts an operation into the queue and waits for it; the thread of the queue works on its buffer.  What sectors
and the cache hold is not looked at here.

* `Wf` — **calls and operations belong together**: the operation that a call waits for is its own, and an operation
  that is pending is waited for.
-/

namespace Btos.Modules.Ata.Queue

open Lib.Table Function Option

variable {Block : Type*}

/-! ### Calls and operations -/

/-- **What holds of a call**: times are in the past, and the buffer of a write is as it was. -/
structure Call.Sound (k : Call Block) (c : ℕ) (s : System Block) : Prop where
  lba_lt : k.lba < 2 ^ 28
  began_lt : k.began < s.now
  ended_lt : ∀ t, k.ended = some t → t < s.now
  ended_iff : k.ended.isSome = true ↔ ∃ result, k.phase = .finished result
  data : k.kind = .write → s.host.machine.mem c = k.data
  reads : k.phase = .create ∨ k.phase = .retrieve ∨ k.phase = .store → k.kind = .read

/-- **Calls and operations belong together.** -/
structure Wf (s : System Block) : Prop where
  waiting : ∀ c k a, s.call c = some k → k.phase = .wait a →
    ∃ st, s.host.machine.op a = { k.operation c with status := st } ∧ st ≠ .error
  distinct : ∀ c c' k k' a, s.call c = some k → s.call c' = some k' → k.phase = .wait a →
    k'.phase = .wait a → c = c'
  owned : ∀ a, (s.host.machine.op a).status = .pending → ∃ c k, s.call c = some k ∧ k.phase = .wait a
  ahead : Ref.idleOp ∈ s.host.machine.refs →
    s.host.machine.idleOp.type = .read ∧ s.host.machine.idleOp.buf = .cacheBuffer
  sound : ∀ {c k}, s.call c = some k → k.Sound c s

@[simp] theorem call_initial (disk : Drive → ℕ → Block) (mem : ℕ → Block) (cacheBuffer : Block) (c : ℕ) :
    (initial disk mem cacheBuffer).call c = none := by
  simp [initial, System.call]

/-- **A call begins or goes on**, and the others are as they were. -/
structure Puts (s t : System Block) (c : ℕ) (k : Call Block) : Prop where
  now : t.now = s.now + 1
  call_iff : ∀ {j kj}, t.call j = some kj ↔ j = c ∧ kj = k ∨ j ≠ c ∧ s.call j = some kj

section Kept

variable {s t : System Block} {h : Host Block} {c : ℕ} {k x : Call Block}

theorem puts_put (hk : s.call c = some k) : Puts s (s.put h c x).tick c x := ⟨rfl, getElem?_set_iff hk⟩

theorem puts_begin (h : s.beginCall kind drive lba pid buf = some t) :
    Puts s t.tick s.calls.length ⟨kind, drive, lba, pid, buf, kind.firstPhase, s.now, none⟩ := by
  obtain ⟨-, h⟩ := ite_none_left_eq_some.1 h
  cases h
  refine ⟨rfl, fun {j kj} => getElem?_snoc_iff.trans (or_comm.trans (or_congr_right ⟨?_, And.right⟩))⟩
  exact fun hj => ⟨Nat.ne_of_lt (List.getElem?_eq_some_iff.mp hj).1, hj⟩

theorem Call.Sound.ended_eq_none (hk : k.Sound c s) (hp : ∀ result, k.phase ≠ .finished result) :
    k.ended = none := by
  rw [← not_isSome_iff_eq_none, hk.ended_iff]
  rintro ⟨result, h⟩
  exact hp result h

theorem Call.Sound.later (hk : k.Sound c s) (hnow : t.now = s.now + 1)
    (hmem : k.kind = .write → t.host.machine.mem c = s.host.machine.mem c) : k.Sound c t where
  lba_lt := hk.lba_lt
  began_lt := hnow ▸ Nat.lt_succ_of_lt hk.began_lt
  ended_lt u hu := hnow ▸ Nat.lt_succ_of_lt (hk.ended_lt u hu)
  ended_iff := hk.ended_iff
  data hkind := (hmem hkind).trans (hk.data hkind)
  reads := hk.reads

/-- **A call goes on.** -/
theorem Call.Sound.put (hk : k.Sound c s) (hmem : k.kind = .write → h.machine.mem c = s.host.machine.mem c)
    (hreads : p = .create ∨ p = .retrieve ∨ p = .store → k.kind = .read)
    (he : (∃ result, p = .finished result) ∧ e = some s.now ∨ (∀ result, p ≠ .finished result) ∧ e = none) :
    ({ k with phase := p, ended := e } : Call Block).Sound c (s.put h c x).tick := by
  refine ⟨hk.lba_lt, Nat.lt_succ_of_lt hk.began_lt, ?_, ?_, fun hkind => (hmem hkind).trans (hk.data hkind), hreads⟩
  · rcases he with ⟨-, rfl⟩ | ⟨-, rfl⟩
    · rintro u ⟨⟩
      exact Nat.lt_succ_self _
    · simp
  · rcases he with ⟨hfin, rfl⟩ | ⟨hfin, rfl⟩
    · exact iff_of_true rfl hfin
    · simp [hfin]

/-- **One step**, in which a call may wait for a new operation at an address that is free. -/
theorem Wf.next (hw : Wf s) (hp : Puts s t c x)
    (hop : ∀ a, x.phase ≠ .wait a → t.host.machine.op a = s.host.machine.op a)
    (hnew : ∀ a, x.phase = .wait a → s.isFree a = true ∧
      ∃ st, t.host.machine.op a = { x.operation c with status := st } ∧ st ≠ .error)
    (hidle : t.host.machine.idleOp = s.host.machine.idleOp)
    (hrefs : Ref.idleOp ∈ t.host.machine.refs → Ref.idleOp ∈ s.host.machine.refs)
    (hmem : ∀ j, j ≠ c → t.host.machine.mem j = s.host.machine.mem j)
    (hold : ∀ k a, s.call c = some k → k.phase = .wait a → (s.host.machine.op a).status ≠ .pending)
    (hsound : x.Sound c t) : Wf t := by
  have hfree : ∀ {a j kj}, x.phase = .wait a → s.call j = some kj → kj.phase ≠ .wait a := by
    intro a j kj ha hj
    have hall := (hnew a ha).1
    rw [System.isFree, List.all_eq_true] at hall
    simpa using hall kj (List.mem_of_getElem? hj)
  constructor
  · intro j kj a hj hphase
    rcases hp.call_iff.mp hj with ⟨rfl, rfl⟩ | ⟨-, hj⟩
    · exact (hnew a hphase).2
    · rw [hop a fun ha => hfree ha hj hphase]
      exact hw.waiting j kj a hj hphase
  · intro j j' kj kj' a hj hj' hphase hphase'
    rcases hp.call_iff.mp hj with ⟨hjc, rfl⟩ | ⟨-, hj⟩
    · rcases hp.call_iff.mp hj' with ⟨hjc', -⟩ | ⟨-, hj'⟩
      · rw [hjc, hjc']
      · exact absurd hphase' (hfree hphase hj')
    · rcases hp.call_iff.mp hj' with ⟨-, rfl⟩ | ⟨-, hj'⟩
      · exact absurd hphase (hfree hphase' hj)
      · exact hw.distinct j j' kj kj' a hj hj' hphase hphase'
  · intro a ha
    by_cases hpa : x.phase = .wait a
    · exact ⟨c, x, hp.call_iff.mpr (.inl ⟨rfl, rfl⟩), hpa⟩
    · rw [hop a hpa] at ha
      obtain ⟨j, kj, hj, hphase⟩ := hw.owned a ha
      have hne : j ≠ c := by
        rintro rfl
        exact hold kj a hj hphase ha
      exact ⟨j, kj, hp.call_iff.mpr (.inr ⟨hne, hj⟩), hphase⟩
  · rw [hidle]
    exact fun href => hw.ahead (hrefs href)
  · intro j kj hj
    rcases hp.call_iff.mp hj with ⟨rfl, rfl⟩ | ⟨hne, hj⟩
    · exact hsound
    · exact (hw.sound hj).later hp.now fun _ => hmem j hne

/-- **A step of a call** that makes no operation. -/
theorem Wf.put (hw : Wf s) (hk : s.call c = some k)
    (hsame : h.machine.op = s.host.machine.op ∧ h.machine.idleOp = s.host.machine.idleOp ∧
      h.machine.refs = s.host.machine.refs)
    (hwait : ∀ a, p ≠ .wait a)
    (hmem : ∀ j, j ≠ c ∨ k.kind = .write → h.machine.mem j = s.host.machine.mem j)
    (hold : ∀ a, k.phase = .wait a → (s.host.machine.op a).status ≠ .pending)
    (hreads : p = .create ∨ p = .retrieve ∨ p = .store → k.kind = .read)
    (he : (∃ result, p = .finished result) ∧ e = some s.now ∨ (∀ result, p ≠ .finished result) ∧ e = none) :
    Wf (s.put h c { k with phase := p, ended := e }).tick := by
  refine hw.next (puts_put hk) (fun a _ => congrFun hsame.1 a) (fun a ha => absurd ha (hwait a)) hsame.2.1
    (fun href => hsame.2.2 ▸ href) (fun j hj => hmem j (.inl hj)) ?_
    ((hw.sound hk).put (fun hkind => hmem c (.inr hkind)) hreads he)
  intro kc a hkc
  cases hk.symm.trans hkc
  exact hold a

/-- **A step that changes no call**: operations are completed at most. -/
theorem Wf.rest (hw : Wf s)
    (hop : ∀ a, h.machine.op a = s.host.machine.op a ∨ (s.host.machine.op a).status = .pending ∧
      h.machine.op a = { s.host.machine.op a with status := .complete })
    (hahead : Ref.idleOp ∈ h.machine.refs → h.machine.idleOp.type = .read ∧ h.machine.idleOp.buf = .cacheBuffer)
    (hmem : ∀ j kj, s.call j = some kj → kj.kind = .write → h.machine.mem j = s.host.machine.mem j) :
    Wf ({ s with host := h } : System Block).tick := by
  constructor
  · intro j kj a hj hphase
    obtain ⟨st, hst, hne⟩ := hw.waiting j kj a hj hphase
    rcases hop a with heq | ⟨-, heq⟩
    · exact ⟨st, heq.trans hst, hne⟩
    · exact ⟨.complete, by rw [System.tick, heq, hst], by decide⟩
  · exact hw.distinct
  · intro a ha
    rcases hop a with heq | ⟨hpending, -⟩
    · exact hw.owned a (heq ▸ ha)
    · exact hw.owned a hpending
  · exact hahead
  · exact fun {j kj} hj => (hw.sound hj).later rfl (hmem j kj hj)

/-- **An operation is made** at a free address. -/
theorem Wf.enqueue (hw : Wf s) (hk : s.call c = some k) (hphase : k.phase = .enqueue)
    (hfree : s.isFree a = true) (hadd : s.host.machine.Added a (k.operation c) m) :
    Wf (s.goOn { s.host with machine := m } c k (.wait a)).tick := by
  have hended := (hw.sound hk).ended_eq_none (by simp [hphase])
  refine hw.next (puts_put hk) ?_ ?_ hadd.idleOp hadd.idleOp_mem.mp (fun j _ => congrFun hadd.mem j) ?_
    ((hw.sound hk).put (fun _ => congrFun hadd.mem c) (by simp) (.inr ⟨by simp, hended⟩))
  · intro b hb
    have hne : b ≠ a := fun hba => hb (by rw [hba])
    exact (congrFun hadd.op b).trans (update_of_ne hne _ _)
  · intro b hb
    cases hb
    refine ⟨hfree, .pending, (congrFun hadd.op a).trans ((update_self ..).trans ?_), by decide⟩
    cases hkind : k.kind <;> simp [Call.operation, hkind, readOperation, writeOperation, syncOperation,
      ATAOperation.default]
  · intro kc b hkc hb
    cases hk.symm.trans hkc
    rw [hphase] at hb
    cases hb

/-- **A call begins.** -/
theorem Wf.begin (hw : Wf s) (hlba : lba < 2 ^ 28) (h : s.beginCall kind drive lba pid buf = some t) : Wf t.tick := by
  have hp := puts_begin h
  obtain ⟨-, h⟩ := ite_none_left_eq_some.1 h
  cases h
  have hfirst : ∀ a, kind.firstPhase ≠ .wait a := by cases kind <;> simp [Kind.firstPhase]
  refine hw.next hp (fun _ _ => rfl) (fun a ha => absurd ha (hfirst a)) rfl id (fun _ hj => update_of_ne hj _ _) ?_
    ⟨hlba, Nat.lt_succ_self _, by simp, ?_, fun _ => update_self .., ?_⟩
  · intro k a hk
    exact absurd (List.getElem?_eq_some_iff.mp hk).1 (Nat.lt_irrefl _)
  · cases kind <;> simp [Kind.firstPhase]
  · cases kind <;> simp [Kind.firstPhase]

end Kept

end Btos.Modules.Ata.Queue
