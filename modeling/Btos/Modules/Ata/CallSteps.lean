import Btos.Modules.Ata.Operations

/-!
# The steps of the calls and of the worker

Inversion lemmas, one for the threads that read and write and one for the thread of the queue, with their
guards; the invariants of `Btos.Modules.Ata.Coherence` and `Btos.Modules.Ata.Freshness` are stated on them.

* `Advances`, `advance_cases` — **what a step of a call can be**;
* `Serves`, `work_serves` — **what a step of the worker can be**.
-/

namespace Btos.Modules.Ata.Queue

open Function Option Machine Host

variable {Block : Type*}

/-! ### What a step of a call can be -/

/-- A phase before the access to the device. -/
def CallPhase.isEarly : CallPhase → Bool
  | .create => true
  | .retrieve => true
  | .drop => true
  | .access => true
  | .enqueue => true
  | .direct => true
  | _ => false

theorem sector_eq (h : lba < 2 ^ 28) : sector (lba % 2 ^ 32) = lba := by
  rw [sector]
  omega

/-- **What a step of a call can be**, where disks can be read and no operation fails. -/
inductive Advances (s : System Block) (c : ℕ) (k : Call Block) : System Block → Prop where
  | early {h : Host Block} {p : CallPhase} (hmachine : h.machine = s.host.machine)
      (hcache : ∀ d l x, InCache h d l x → InCache s.host d l x) (hold : k.phase.isEarly = true)
      (hnew : p.isEarly = true) (hreads : p = .create ∨ p = .retrieve → k.kind = .read) :
      Advances s c k (s.goOn h c k p)
  | hit {h : Host Block} {x : Block} (hx : InCache s.host k.drive k.lba x) (hphase : k.phase = .retrieve)
      (hcache : ∀ d l x, InCache h d l x → InCache s.host d l x)
      (hmachine : h.machine = s.host.machine.fill (.caller c) x) : Advances s c k (s.finish h c k true)
  | enqueue {a : ℕ} {m : Machine Block} (hphase : k.phase = .enqueue) (hfree : s.isFree a = true)
      (hadd : s.host.machine.Added a (k.operation c) m) :
      Advances s c k (s.goOn { s.host with machine := m } c k (.wait a))
  | readDirect (hphase : k.phase = .direct) (hkind : k.kind = .read) :
      Advances s c k (s.goOn { s.host with
        machine := s.host.machine.fill (.caller c) (s.host.machine.disk k.drive k.lba) } c k .store)
  | writeDirect (hphase : k.phase = .direct) (hkind : k.kind = .write) :
      Advances s c k (s.finish { s.host with
        machine := s.host.machine.setSector k.drive k.lba (s.host.machine.mem c) } c k true)
  | woken {a : ℕ} (hphase : k.phase = .wait a) (hstatus : (s.host.machine.op a).status = .complete)
      (hkind : k.kind = .read) : Advances s c k (s.goOn s.host c k .store)
  | returned {a : ℕ} (hphase : k.phase = .wait a) (hstatus : (s.host.machine.op a).status = .complete)
      (hkind : k.kind ≠ .read) : Advances s c k (s.finish s.host c k true)
  | stored {h : Host Block} (hphase : k.phase = .store) (hmachine : h.machine = s.host.machine)
      (hcache : ∀ d l x, InCache h d l x → InCache s.host d l x ∨
        d = k.drive ∧ l = k.lba ∧ s.host.machine.mem c = x) : Advances s c k (s.finish h c k true)

theorem advance_cases (hw : Wf s) (hk : s.call c = some k)
    (h : s.advance c a true k = some t) : Advances s c k t := by
  have hsector := sector_eq (hw.sound hk).lba_lt
  simp only [System.advance] at h
  cases hphase : k.phase with
  | create =>
    simp only [hphase] at h
    cases h
    exact .early machine_openCache (fun _ _ _ => inCache_of_openCache) (by rw [hphase]; rfl) rfl
      (fun _ => (hw.sound hk).reads (.inl hphase))
  | retrieve =>
    simp only [hphase] at h
    cases h
    obtain ⟨hcache, ⟨hmiss, hmachine⟩ | ⟨x, hx, hit, hmachine⟩⟩ := s.host.retrieve_cases k.drive k.lba c
    · rw [if_neg (by simp [hmiss])]
      exact .early hmachine hcache (by rw [hphase]; rfl) rfl (by simp)
    · rw [if_pos hit]
      exact .hit hx hphase hcache hmachine
  | drop =>
    simp only [hphase] at h
    cases h
    exact .early machine_dropBlock (fun _ _ _ => inCache_of_dropBlock) (by rw [hphase]; rfl) rfl
      (by simp)
  | access =>
    simp only [hphase] at h
    cases h
    refine .early rfl (fun _ _ _ hx => hx) (by rw [hphase]; rfl) ?_ ?_
    · split <;> rfl
    · split <;> simp
  | enqueue =>
    simp only [hphase] at h
    split at h
    · rename_i hfree
      obtain ⟨m, hm, rfl⟩ := map_eq_some_iff.mp h
      exact .enqueue hphase hfree (add_spec hm)
    · cases h
  | direct =>
    cases hkind : k.kind with
    | read =>
      simp only [hphase, hkind, ite_true, some.injEq, Machine.readSector, hsector] at h
      rw [← h]
      exact .readDirect hphase hkind
    | write =>
      simp only [hphase, hkind, some.injEq, Machine.writeSector, hsector, load] at h
      rw [← h]
      exact .writeDirect hphase hkind
    | sync => simp [hphase, hkind] at h
  | wait b =>
    obtain ⟨st, hst, herror⟩ := hw.waiting c k b hk hphase
    have hstatus : (s.host.machine.op b).status = st := by rw [hst]
    cases st with
    | pending => simp [hphase, hstatus] at h
    | error => exact absurd rfl herror
    | complete =>
      simp only [hphase, hstatus, reduceCtorEq, ite_false] at h
      cases hkind : k.kind with
      | read =>
        simp only [hkind, ite_true, some.injEq] at h
        rw [← h]
        exact .woken hphase hstatus hkind
      | write =>
        simp only [hkind, decide_true, some.injEq] at h
        rw [← h]
        exact .returned hphase hstatus (by simp [hkind])
      | sync =>
        simp only [hkind, some.injEq] at h
        rw [← h]
        exact .returned hphase hstatus (by simp [hkind])
  | store =>
    simp only [hphase] at h
    cases h
    exact .stored hphase machine_storeBlock (fun _ _ _ => inCache_of_storeBlock)
  | finished result => simp [hphase] at h

/-! ### What a step of the worker can be -/

/-- **What a step of the worker can be**, where processes are there and disks can be read. -/
inductive Serves (s : System Block) (ans : Answer Block) (m : Machine Block) : Prop where
  | looked (hlooked : s.host.machine.Looked m)
  | read {c a : ℕ} {k : Call Block} {x : Block} (hk : s.call c = some k) (hphase : k.phase = .wait a)
      (hpending : (s.host.machine.op a).status = .pending) (hkind : k.kind = .read)
      (hx : x = s.host.machine.disk k.drive k.lba ∨ IsAhead s.host.machine k.drive k.lba x)
      (hdisk : m.disk = s.host.machine.disk) (hmem : m.mem = update s.host.machine.mem c x)
      (hdone : s.host.machine.Completed a m)
  | write {c a : ℕ} {k : Call Block} (hk : s.call c = some k) (hphase : k.phase = .wait a)
      (hpending : (s.host.machine.op a).status = .pending) (hkind : k.kind = .write)
      (hwrite : s.deviceWrite (.work ans) = some (k.drive, k.lba, s.host.machine.mem c))
      (hdisk : m.disk = (s.host.machine.setSector k.drive k.lba (s.host.machine.mem c)).disk)
      (hmem : m.mem = s.host.machine.mem) (hdone : s.host.machine.Completed a m)
  | sync {c a : ℕ} {k : Call Block} (hk : s.call c = some k) (hphase : k.phase = .wait a)
      (hpending : (s.host.machine.op a).status = .pending) (hkind : k.kind = .sync)
      (hdisk : m.disk = s.host.machine.disk) (hmem : m.mem = s.host.machine.mem)
      (hdone : s.host.machine.Completed a m)
  | ahead (hdisk : m.disk = s.host.machine.disk) (hmem : m.mem = s.host.machine.mem)
      (hop : m.op = s.host.machine.op)
      (hbuffer : m.cacheBuffer =
        s.host.machine.disk s.host.machine.idleOp.drive (sector s.host.machine.idleOp.lba))
      (hidle : m.idleOp = { s.host.machine.idleOp with status := .complete })
      (htype : m.idleOp.type = .read ∧ m.idleOp.buf = .cacheBuffer)

theorem Machine.Completed.op_cases {m m' : Machine Block} {a : ℕ} (h : m.Completed a m')
    (hpending : (m.op a).status = .pending) (b : ℕ) :
    m'.op b = m.op b ∨ (m.op b).status = .pending ∧ m'.op b = { m.op b with status := .complete } := by
  rw [h.op]
  by_cases hb : b = a
  · subst hb
    exact .inr ⟨hpending, update_self _ _ _⟩
  · exact .inl (update_of_ne hb _ _)

theorem CallPhase.ne_of_isEarly {p : CallPhase} (h : p.isEarly = true) :
    (∀ a, p ≠ .wait a) ∧ p ≠ .store ∧ ∀ result, p ≠ .finished result := by
  refine ⟨?_, ?_, ?_⟩
  · rintro a rfl
    cases h
  · rintro rfl
    cases h
  · rintro result rfl
    cases h

theorem Wf.advance {s t : System Block} {c : ℕ} {k : Call Block} (hw : Wf s) (hk : s.call c = some k)
    (h : Advances s c k t) : Wf t.tick := by
  have hown : ∀ (x : Block), k.kind = .read → ∀ j, j ≠ c ∨ k.kind = .write →
      update s.host.machine.mem c x j = s.host.machine.mem j := by
    intro x hread j hj
    exact update_of_ne (hj.resolve_right (by simp [hread])) _ _
  cases h with
  | early hmachine hcache hold hnew hreads =>
    obtain ⟨hwait, hstore, hfinished⟩ := CallPhase.ne_of_isEarly hnew
    obtain ⟨hwait', -, hfinished'⟩ := CallPhase.ne_of_isEarly hold
    have hended := (hw.sound hk).ended_eq_none hfinished'
    refine hw.put hk (by simp [hmachine]) hwait (by simp [hmachine]) (fun a ha => absurd ha (hwait' a)) ?_
      (.inr ⟨hfinished, hended⟩)
    rintro (h | h | h)
    · exact hreads (.inl h)
    · exact hreads (.inr h)
    · exact absurd h hstore
  | hit hx hphase hcache hmachine =>
    have hread := (hw.sound hk).reads (.inr (.inl hphase))
    refine hw.put hk (by rw [hmachine]; exact ⟨rfl, rfl, rfl⟩) (by simp) ?_ (by simp [hphase]) (by simp)
      (.inl ⟨⟨_, rfl⟩, rfl⟩)
    rw [hmachine]
    exact hown _ hread
  | enqueue hphase hfree hadd => exact hw.enqueue hk hphase hfree hadd
  | readDirect hphase hkind =>
    have hended := (hw.sound hk).ended_eq_none (by simp [hphase])
    exact hw.put hk ⟨rfl, rfl, rfl⟩ (by simp) (hown _ hkind) (by simp [hphase]) (fun _ => hkind)
      (.inr ⟨by simp, hended⟩)
  | writeDirect hphase hkind =>
    exact hw.put hk ⟨rfl, rfl, rfl⟩ (by simp) (fun _ _ => rfl) (by simp [hphase]) (by simp) (.inl ⟨⟨_, rfl⟩, rfl⟩)
  | woken hphase hstatus hkind =>
    have hended := (hw.sound hk).ended_eq_none (by simp [hphase])
    exact hw.put hk ⟨rfl, rfl, rfl⟩ (by simp) (fun _ _ => rfl) (by simp [hphase, hstatus]) (fun _ => hkind)
      (.inr ⟨by simp, hended⟩)
  | returned hphase hstatus hkind =>
    exact hw.put hk ⟨rfl, rfl, rfl⟩ (by simp) (fun _ _ => rfl) (by simp [hphase, hstatus]) (by simp)
      (.inl ⟨⟨_, rfl⟩, rfl⟩)
  | stored hphase hmachine hcache =>
    exact hw.put hk (by simp [hmachine]) (by simp) (by simp [hmachine]) (by simp [hphase]) (by simp)
      (.inl ⟨⟨_, rfl⟩, rfl⟩)

theorem Wf.work {s : System Block} {ans : Answer Block} {m : Machine Block} (hw : Wf s) (h : Serves s ans m) :
    Wf ({ s with host := { s.host with machine := m } } : System Block).tick := by
  have hkeep : ∀ {a}, s.host.machine.Completed a m → Ref.idleOp ∈ m.refs →
      m.idleOp.type = .read ∧ m.idleOp.buf = .cacheBuffer := by
    intro a hdone href
    rw [hdone.idleOp]
    exact hw.ahead (hdone.refs_subset href)
  cases h with
  | looked hlooked =>
    refine hw.rest (fun a => .inl (by rw [hlooked.op])) ?_ (by simp [hlooked.mem])
    intro href
    rcases hlooked.idleOp with ⟨hidle, hsub⟩ | ⟨htype, -, hbuf, -⟩
    · simp only [hidle]
      exact hw.ahead (hsub href)
    · exact ⟨htype, hbuf⟩
  | read hk hphase hpending hkind hx hdisk hmem hdone =>
    refine hw.rest (hdone.op_cases hpending) (hkeep hdone) ?_
    intro j kj hj hwrite
    simp only [hmem]
    refine update_of_ne ?_ _ _
    rintro rfl
    rw [hk] at hj
    cases hj
    rw [hkind] at hwrite
    cases hwrite
  | write hk hphase hpending hkind hwrite hdisk hmem hdone | sync hk hphase hpending hkind hdisk hmem hdone =>
    exact hw.rest (hdone.op_cases hpending) (hkeep hdone) (by simp [hmem])
  | ahead hdisk hmem hop hbuffer hidle htype =>
    exact hw.rest (fun a => .inl (by rw [hop])) (fun _ => htype) (by simp [hmem])

end Btos.Modules.Ata.Queue
