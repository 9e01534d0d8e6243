import Btos.Modules.Ata.CallSteps

/-!
# Copies that are as the disk

As long as every copy of a sector is as the disk, a read gives what is on the disk when it returns, and this is what
a write has left there that no other write has come after.

* `Coherent` — **the invariant**: copies are as the disk, the disk is as the writes have left it, and what a read
  has given came from a write that was not yet replaced;
* `Coherent.next` — **one step**, from what it does to the copies, to the disk and to the call that it completes.
-/

namespace Btos.Modules.Ata.Queue

open Modules.BlockCache Function Option Machine
open Lib.Table

variable {Block : Type*}

/-! ### The invariant -/

/-- **The block was given by the write `w`, or by one that did not return before `w` began**, and began before the
time `t`. -/
def From (s : System Block) (w : ℕ) (kw : Call Block) (t : ℕ) (x : Block) : Prop :=
  ∃ w' k', s.call w' = some k' ∧ k'.WritesSectorOf kw ∧ k'.began < t ∧ (w' = w ∨ ¬ k'.Before kw) ∧ k'.data = x

structure Coherent (s : System Block) : Prop where
  copies : ∀ d lba x, lba < 2 ^ 28 → x ∈ s.copies d lba → x = s.host.machine.disk d lba
  written : ∀ w k, s.call w = some k → k.kind = .write → k.isDone s.host.machine = true →
    From s w k s.now (s.host.machine.disk k.drive k.lba)
  reads : ∀ r k result t, s.call r = some k → k.kind = .read → k.phase = .finished result →
    k.ended = some t → result = true ∧ ∀ w kw, s.call w = some kw → kw.WritesSectorOf k → kw.Before k →
      From s w kw t (s.host.machine.mem r)

/-- The same call, which may have returned now. -/
structure Call.Goes (k k' : Call Block) (now : ℕ) : Prop where
  kind : k'.kind = k.kind
  drive : k'.drive = k.drive
  lba : k'.lba = k.lba
  data : k'.data = k.data
  began : k'.began = k.began
  ended : k'.ended = k.ended ∨ k.ended = none ∧ k'.ended = some now

theorem Call.Goes.refl (k : Call Block) (now : ℕ) : k.Goes k now := ⟨rfl, rfl, rfl, rfl, rfl, .inl rfl⟩

/-- **The calls go on**, and new ones may have begun. -/
structure Later (s t : System Block) : Prop where
  now : t.now = s.now + 1
  keeps : ∀ {c k}, s.call c = some k → ∃ k', t.call c = some k' ∧ k.Goes k' s.now
  comes : ∀ {c k'}, t.call c = some k' →
    (∃ k, s.call c = some k ∧ k.Goes k' s.now) ∨ k'.ended = none ∧ k'.phase.isEarly = true

section Next

variable {s t : System Block}

theorem Call.Goes.not_before {k k' kw kw' : Call Block} {now : ℕ} (hk : k.Goes k' now) (hkw : kw.Goes kw' now)
    (hbegan : kw.began < now) (h : ¬ k.Before kw) : ¬ k'.Before kw' := by
  rintro ⟨u, hu, hlt⟩
  rw [hkw.began] at hlt
  rcases hk.ended with hended | ⟨-, hended⟩
  · exact h ⟨u, hended ▸ hu, hlt⟩
  · rw [hended, some.injEq] at hu
    omega

/-- **Where a block came from** stays true. -/
theorem From.later (hl : Later s t) (hw : Wf s) {w u : ℕ} {kw kw' : Call Block} {x : Block}
    (hkw : s.call w = some kw) (hgoes : kw.Goes kw' s.now) (h : From s w kw u x) : From t w kw' u x := by
  obtain ⟨w1, k1, hk1, hplace, hbegan, hor, hdata⟩ := h
  obtain ⟨k2, hk2, hgoes2⟩ := hl.keeps hk1
  refine ⟨w1, k2, hk2, ⟨hgoes2.kind.trans hplace.kind, ?_, ?_⟩, by rw [hgoes2.began]; exact hbegan, ?_,
    hgoes2.data.trans hdata⟩
  · rw [hgoes2.drive, hplace.drive, hgoes.drive]
  · rw [hgoes2.lba, hplace.lba, hgoes.lba]
  · exact hor.imp id (hgoes2.not_before hgoes (hw.sound hkw).began_lt)

theorem Call.WritesSectorOf.symm_place {k k' kw kw' : Call Block} {now now' : ℕ} (h : kw'.WritesSectorOf k')
    (hkw : kw.Goes kw' now) (hk : k.Goes k' now') : kw.WritesSectorOf k where
  kind := hkw.kind.symm.trans h.kind
  drive := by rw [← hkw.drive, h.drive, hk.drive]
  lba := by rw [← hkw.lba, h.lba, hk.lba]

/-- **One step.** -/
theorem Coherent.next (hc : Coherent s) (hw : Wf s) (hl : Later s t)
    (hcopies : ∀ d lba x, lba < 2 ^ 28 → x ∈ t.copies d lba → x = t.host.machine.disk d lba)
    (hwritten : ∀ w k, t.call w = some k → k.kind = .write → k.isDone t.host.machine = true →
      (∃ k₀, s.call w = some k₀ ∧ k₀.isDone s.host.machine = true) ∨ t.host.machine.disk k.drive k.lba = k.data)
    (hdisk : t.host.machine.disk = s.host.machine.disk ∨ ∃ c kc, s.call c = some kc ∧ kc.kind = .write ∧
      kc.ended = none ∧ t.host.machine.disk = (s.host.machine.setSector kc.drive kc.lba kc.data).disk)
    (hreads : ∀ r k' result, t.call r = some k' → k'.kind = .read → k'.phase = .finished result →
      s.call r = some k' ∧ t.host.machine.mem r = s.host.machine.mem r ∨ result = true ∧ k'.ended = some s.now ∧
          t.host.machine.mem r = s.host.machine.disk k'.drive k'.lba) : Coherent t := by
  -- the writes that have returned are done
  have hdone : ∀ {w kw}, s.call w = some kw → (∃ u, kw.ended = some u) → kw.isDone s.host.machine = true := by
    rintro w kw hkw ⟨u, hu⟩
    obtain ⟨result, hfin⟩ := (hw.sound hkw).ended_iff.mp (by rw [hu]; rfl)
    simp [Call.isDone, hfin]
  -- a call that returned before one that is not new had returned already
  have hprior : ∀ {w kw' k'}, t.call w = some kw' → kw'.Before k' → k'.began < s.now →
      ∃ kw, s.call w = some kw ∧ kw.Goes kw' s.now ∧ kw.Before k' := by
    rintro w kw' k' hkw' ⟨u, hu, hlt⟩ hbegan
    rcases hl.comes hkw' with ⟨kw, hkw, hgoes⟩ | ⟨hnone, -⟩
    · refine ⟨kw, hkw, hgoes, u, ?_, hlt⟩
      rcases hgoes.ended with hsame | ⟨-, hnow⟩
      · rw [← hsame]
        exact hu
      · rw [hnow, some.injEq] at hu
        omega
    · rw [hnone] at hu
      cases hu
  -- a write that took effect before is still there or has been replaced
  have hstill : ∀ {w kw kw'}, s.call w = some kw → t.call w = some kw' → kw.Goes kw' s.now →
      kw.kind = .write → kw.isDone s.host.machine = true →
      From t w kw' t.now (t.host.machine.disk kw'.drive kw'.lba) := by
    intro w kw kw' hkw hkw' hgoes hkind hd
    obtain ⟨w1, k1, hk1, hplace, hbegan, hor, hdata⟩ := (hc.written w kw hkw hkind hd).later hl hw hkw hgoes
    rcases hdisk with hsame | ⟨c, kc, hkc, hkckind, hkcended, hset⟩
    · refine ⟨w1, k1, hk1, hplace, by rw [hl.now]; omega, hor, ?_⟩
      rw [hsame, hgoes.drive, hgoes.lba]
      exact hdata
    · by_cases hsector : kw.drive = kc.drive ∧ kw.lba = kc.lba
      · -- the write of this step has not returned before
        obtain ⟨k2, hk2, hgoes2⟩ := hl.keeps hkc
        refine ⟨c, k2, hk2, ⟨hgoes2.kind.trans hkckind, ?_, ?_⟩, ?_, .inr ?_, ?_⟩
        · rw [hgoes2.drive, hgoes.drive, hsector.1]
        · rw [hgoes2.lba, hgoes.lba, hsector.2]
        · rw [hgoes2.began, hl.now]
          exact Nat.lt_succ_of_lt (hw.sound hkc).began_lt
        · apply hgoes2.not_before hgoes (hw.sound hkw).began_lt
          rintro ⟨u, hu, -⟩
          rw [hkcended] at hu
          cases hu
        · rw [hset, hgoes2.data, hgoes.drive, hgoes.lba]
          simp [setSector, hsector]
      · refine ⟨w1, k1, hk1, hplace, by rw [hl.now]; omega, hor, ?_⟩
        rw [hset, hgoes.drive, hgoes.lba]
        simp only [setSector, if_neg hsector]
        exact hdata
  constructor
  · exact hcopies
  · intro w k' hk' hkind hd
    rcases hl.comes hk' with ⟨k, hk, hgoes⟩ | ⟨-, hearly⟩
    · rcases hwritten w k' hk' hkind hd with ⟨k0, hk0, hold⟩ | hnew
      · cases hk.symm.trans hk0
        exact hstill hk hk' hgoes (hgoes.kind ▸ hkind) hold
      · refine ⟨w, k', hk', ⟨hkind, rfl, rfl⟩, ?_, .inl rfl, hnew.symm⟩
        rw [hgoes.began, hl.now]
        exact Nat.lt_succ_of_lt (hw.sound hk).began_lt
    · cases hphase : k'.phase <;> simp [Call.isDone, hphase, CallPhase.isEarly] at hd hearly
  · intro r k' result u hk' hkind hphase hended
    rcases hreads r k' result hk' hkind hphase with ⟨hk, hmem⟩ | ⟨htrue, hnow, hmem⟩
    · obtain ⟨htrue, hfrom⟩ := hc.reads r k' result u hk hkind hphase hended
      refine ⟨htrue, ?_⟩
      intro w kw' hkw' hplace hbefore
      rw [hmem]
      obtain ⟨kw, hkw, hgoes, hbefore⟩ := hprior hkw' hbefore (hw.sound hk).began_lt
      exact (hfrom w kw hkw (hplace.symm_place hgoes (.refl k' s.now)) hbefore).later hl hw hkw hgoes
    · refine ⟨htrue, ?_⟩
      intro w kw' hkw' hplace hbefore
      rw [hnow, some.injEq] at hended
      have hbegan : k'.began < s.now := by
        rcases hl.comes hk' with ⟨k, hk, hgoes⟩ | ⟨-, hearly⟩
        · rw [hgoes.began]
          exact (hw.sound hk).began_lt
        · rw [hphase] at hearly
          cases hearly
      obtain ⟨kw, hkw, hgoes, u, hu, -⟩ := hprior hkw' hbefore hbegan
      have hfrom := hc.written w kw hkw (hgoes.kind ▸ hplace.kind) (hdone hkw ⟨u, hu⟩)
      rw [hmem, ← hended, ← hplace.drive, ← hplace.lba, hgoes.drive, hgoes.lba]
      exact hfrom.later hl hw hkw hgoes

end Next

/-! ### The calls -/

section

variable {s t : System Block} {c : ℕ} {k k' : Call Block}

/-- The call that goes on, or begins. -/
def Comes (s : System Block) (c : ℕ) (k' : Call Block) : Prop :=
  (∃ k, s.call c = some k ∧ k.Goes k' s.now) ∨ s.call c = none ∧ k'.ended = none ∧ k'.phase.isEarly = true

theorem comes_goOn (hk : s.call c = some k) : Comes s c { k with phase := p } :=
  .inl ⟨k, hk, rfl, rfl, rfl, rfl, rfl, .inl rfl⟩

theorem comes_finish (hk : s.call c = some k) (hended : k.ended = none) :
    Comes s c { k with phase := p, ended := some s.now } :=
  .inl ⟨k, hk, rfl, rfl, rfl, rfl, rfl, .inr ⟨hended, rfl⟩⟩

theorem Puts.later (hp : Puts s t c k') (hcomes : Comes s c k') : Later s t where
  now := hp.now
  keeps := by
    intro j kj hj
    by_cases hjc : j = c
    · subst hjc
      rcases hcomes with ⟨k, hk, hgoes⟩ | ⟨hnone, -⟩
      · cases hk.symm.trans hj
        exact ⟨k', hp.call_iff.mpr (.inl ⟨rfl, rfl⟩), hgoes⟩
      · cases hnone.symm.trans hj
    · exact ⟨kj, hp.call_iff.mpr (.inr ⟨hjc, hj⟩), .refl kj s.now⟩
  comes := by
    intro j kj hj
    rcases hp.call_iff.mp hj with ⟨rfl, rfl⟩ | ⟨-, hj⟩
    · exact hcomes.imp id And.right
    · exact .inl ⟨kj, hj, .refl kj s.now⟩

theorem later_rest (h : Host Block) : Later s ({ s with host := h } : System Block).tick where
  now := rfl
  keeps {_ kj} hj := ⟨kj, hj, .refl kj s.now⟩
  comes {_ kj} hj := .inl ⟨kj, hj, .refl kj s.now⟩

theorem isDone_congr (h : m'.op = m.op) (k : Call Block) : k.isDone m' = k.isDone m := by
  simp only [Call.isDone, h]

theorem isDone_of_isEarly (h : k.phase.isEarly = true) (m : Machine Block) : k.isDone m = false := by
  cases hphase : k.phase <;> simp [CallPhase.isEarly, hphase] at h <;> simp [Call.isDone, hphase]

/-- **The buffers of reads** after a step of one call. -/
theorem isRead_put (hp : Puts s t c k')
    (hdone : ∀ j kj, j ≠ c → s.call j = some kj → kj.isDone t.host.machine = kj.isDone s.host.machine)
    (hmem : ∀ j, j ≠ c → t.host.machine.mem j = s.host.machine.mem j) (hx : IsRead t d lba x) :
    IsRead s d lba x ∨ k'.kind = .read ∧ k'.drive = d ∧ k'.lba = lba ∧
      k'.isDone t.host.machine = true ∧ t.host.machine.mem c = x := by
  obtain ⟨j, kj, hj, hkind, hdrive, hlba, hdata, hmemx⟩ := hx
  rcases hp.call_iff.mp hj with ⟨rfl, rfl⟩ | ⟨hne, hj⟩
  · rw [Call.hasData, Bool.and_eq_true] at hdata
    exact .inr ⟨hkind, hdrive, hlba, hdata.1, hmemx⟩
  · rw [Call.hasData, hdone j kj hne hj] at hdata
    exact .inl ⟨j, kj, hj, hkind, hdrive, hlba, hdata, (hmem j hne) ▸ hmemx⟩

end

/-! ### Steps of a call -/

section

variable {s t : System Block} {c : ℕ} {k k' : Call Block}

section

variable (hc : Coherent s)
include hc

/-- **Writing a sector** of which there are no other copies. -/
theorem Coherent.copies_setSector (hguard : ∀ x ∈ s.copies d₀ l₀, x = b) (hlt : lba < 2 ^ 28)
    (hx : x ∈ s.copies d lba) : x = (s.host.machine.setSector d₀ l₀ b).disk d lba := by
  simp only [setSector]
  split
  · rename_i hplace
    obtain ⟨rfl, rfl⟩ := hplace
    exact hguard x hx
  · exact hc.copies d lba x hlt hx

/-- **A step of a call**, which may write a sector that has no other copies. -/
theorem Coherent.put (hw : Wf s) (hp : Puts s t c k') (hcomes : Comes s c k') (hm : t.host.machine = m)
    (hdone : ∀ j kj, j ≠ c → s.call j = some kj → kj.isDone m = kj.isDone s.host.machine)
    (hmem : ∀ j, j ≠ c → m.mem j = s.host.machine.mem j)
    (hahead : m.idleOp = s.host.machine.idleOp ∧ m.cacheBuffer = s.host.machine.cacheBuffer)
    (hdisk : m.disk = s.host.machine.disk ∨ ∃ k, s.call c = some k ∧ k.kind = .write ∧ k.ended = none ∧
      m.disk = (s.host.machine.setSector k.drive k.lba k.data).disk ∧ ∀ x ∈ s.copies k.drive k.lba, x = k.data)
    (hcache : ∀ d l x, InCache t.host d l x → InCache s.host d l x ∨
      d = k'.drive ∧ l = k'.lba ∧ x = m.disk k'.drive k'.lba)
    (hdata : k'.kind = .read → k'.isDone m = true → m.mem c = m.disk k'.drive k'.lba)
    (hwrite : k'.kind = .write → k'.isDone m = true →
      (∃ k, s.call c = some k ∧ k.isDone s.host.machine = true) ∨ m.disk k'.drive k'.lba = k'.data)
    (hread : ∀ result, k'.kind = .read → k'.phase = .finished result → result = true ∧ k'.ended = some s.now) :
    Coherent t := by
  subst hm
  refine hc.next hw (hp.later hcomes) ?_ ?_ ?_ ?_
  · intro d lba x hlt hx
    have hold : x ∈ s.copies d lba → x = t.host.machine.disk d lba := by
      intro hx
      rcases hdisk with hdisk | ⟨k, -, -, -, hdisk, hguard⟩
      · rw [hdisk]
        exact hc.copies d lba x hlt hx
      · rw [hdisk]
        exact hc.copies_setSector hguard hlt hx
    rw [mem_copies_iff] at hold
    rcases (mem_copies_iff _ d lba x).mp hx with hx | hx | hx
    · rcases hcache d lba x hx with hx | ⟨rfl, rfl, rfl⟩
      · exact hold (.inl hx)
      · rfl
    · simp only [IsAhead, hahead] at hx
      exact hold (.inr (.inl hx))
    · rcases isRead_put hp hdone hmem hx with hx | ⟨hkind, rfl, rfl, hd, rfl⟩
      · exact hold (.inr (.inr hx))
      · exact hdata hkind hd
  · intro w kw hkw hkind hd
    rcases hp.call_iff.mp hkw with ⟨rfl, rfl⟩ | ⟨hne, hkw⟩
    · exact hwrite hkind hd
    · exact .inl ⟨kw, hkw, (hdone w kw hne hkw).symm.trans hd⟩
  · rcases hdisk with hsame | ⟨k, hk, hkind, hended, hset, -⟩
    · exact .inl hsame
    · exact .inr ⟨c, k, hk, hkind, hended, hset⟩
  · intro r kr result hkr hkind hphase
    rcases hp.call_iff.mp hkr with ⟨rfl, rfl⟩ | ⟨hne, hkr'⟩
    · obtain ⟨htrue, hended⟩ := hread result hkind hphase
      refine .inr ⟨htrue, hended, ?_⟩
      -- a read does not write
      have hsame : t.host.machine.disk = s.host.machine.disk := by
        refine hdisk.resolve_right ?_
        rintro ⟨k, hk, hwrite, -⟩
        obtain ⟨k2, hk2, hgoes⟩ := (hp.later hcomes).keeps hk
        cases hkr.symm.trans hk2
        rw [← hgoes.kind, hkind] at hwrite
        cases hwrite
      rw [← hsame]
      exact hdata hkind (by simp [Call.isDone, hphase])
    · exact .inl ⟨hkr', hmem r hne⟩

theorem Coherent.mem_eq (hw : Wf s) (hk : s.call c = some k) (hkind : k.kind = .read)
    (hdone : k.isDone s.host.machine = true) (hended : k.ended = none) :
    s.host.machine.mem c = s.host.machine.disk k.drive k.lba := by
  apply hc.copies k.drive k.lba _ (hw.sound hk).lba_lt
  refine (mem_copies_iff s k.drive k.lba _).mpr (.inr (.inr ⟨c, k, hk, hkind, rfl, rfl, ?_, rfl⟩))
  rw [Call.hasData, hdone, hended]
  rfl

theorem Coherent.enqueue (hw : Wf s) (hk : s.call c = some k)
    (hfree : s.isFree a = true) (hadd : s.host.machine.Added a (k.operation c) m) :
    Coherent (s.goOn { s.host with machine := m } c k (.wait a)).tick := by
  have hpending : ({ k with phase := .wait a } : Call Block).isDone m = false := by
    have hstatus : (k.operation c).status = .pending := by
      cases hkind : k.kind <;> simp [Call.operation, hkind, readOperation, writeOperation, syncOperation,
        ATAOperation.default]
    simp [Call.isDone, hadd.op, hstatus]
  refine hc.put (m := m) hw (puts_put hk) (comes_goOn hk) rfl ?_ (fun _ _ => by rw [hadd.mem])
    ⟨hadd.idleOp, hadd.cacheBuffer⟩ (.inl hadd.disk) (fun _ _ _ hx => .inl hx) (by simp [hpending])
    (by simp [hpending]) (by simp)
  -- the operations of the others are as they were
  intro j kj _ hj
  rw [System.isFree, List.all_eq_true] at hfree
  have hne := hfree kj (List.mem_of_getElem? hj)
  simp only [Call.isDone]
  split
  · rename_i b hb
    have hba : b ≠ a := by
      rintro rfl
      simp [hb] at hne
    rw [hadd.op, update_of_ne hba]
  · rfl
  · rfl
  · rfl

/-- **Every step of a call**, if what it writes has no other copies. -/
theorem Coherent.advance (hw : Wf s) (hk : s.call c = some k) (h : Advances s c k t)
    (hguard : k.phase = .direct → k.kind = .write →
      ∀ x ∈ s.copies k.drive k.lba, x = s.host.machine.mem c) : Coherent t.tick := by
  cases h with
  | early hmachine hcache hold hnew hreads =>
    have hdone := isDone_of_isEarly (k := { k with phase := _ }) hnew
    refine hc.put hw (puts_put hk) (comes_goOn hk) hmachine (fun _ _ _ _ => rfl) (fun _ _ => rfl) ⟨rfl, rfl⟩ (.inl rfl)
      (fun d l x hx => .inl (hcache d l x hx)) (by simp [hdone]) (by simp [hdone]) ?_
    intro result _ hfin
    exact absurd hfin ((CallPhase.ne_of_isEarly hnew).2.2 result)
  | hit hx hphase hcache hmachine =>
    have hended := (hw.sound hk).ended_eq_none (by simp [hphase])
    have hkind := (hw.sound hk).reads (.inr (.inl hphase))
    have hxdisk := hc.copies k.drive k.lba _ (hw.sound hk).lba_lt
      ((mem_copies_iff s k.drive k.lba _).mpr (.inl hx))
    exact hc.put hw (puts_put hk) (comes_finish hk hended) hmachine (fun _ _ _ _ => isDone_congr rfl _)
      (fun _ hj => update_of_ne hj _ _) ⟨rfl, rfl⟩ (.inl rfl) (fun d l x hx => .inl (hcache d l x hx))
      (fun _ _ => (update_self _ _ _).trans hxdisk) (by simp [hkind]) (by simp)
  | enqueue hphase hfree hadd => exact hc.enqueue hw hk hfree hadd
  | readDirect hphase hkind =>
    exact hc.put hw (puts_put hk) (comes_goOn hk) rfl (fun _ _ _ _ => isDone_congr rfl _)
      (fun _ hj => update_of_ne hj _ _) ⟨rfl, rfl⟩ (.inl rfl) (fun _ _ _ hx => .inl hx)
      (fun _ _ => update_self _ _ _) (by simp [hkind]) (by simp)
  | writeDirect hphase hkind =>
    have hended := (hw.sound hk).ended_eq_none (by simp [hphase])
    have hdata := (hw.sound hk).data hkind
    have hguard := hguard hphase hkind
    rw [hdata] at hguard ⊢
    exact hc.put hw (puts_put hk) (comes_finish hk hended) rfl (fun _ _ _ _ => isDone_congr rfl _)
      (fun _ _ => rfl) ⟨rfl, rfl⟩ (.inr ⟨k, hk, hkind, hended, rfl, hguard⟩) (fun _ _ _ hx => .inl hx) (by simp [hkind])
      (fun _ _ => .inr (if_pos ⟨rfl, rfl⟩)) (by simp [hkind])
  | woken hphase hstatus hkind =>
    have hended := (hw.sound hk).ended_eq_none (by simp [hphase])
    have hdone : k.isDone s.host.machine = true := by simp [Call.isDone, hphase, hstatus]
    have hmem := hc.mem_eq hw hk hkind hdone hended
    exact hc.put hw (puts_put hk) (comes_goOn hk) rfl (fun _ _ _ _ => rfl) (fun _ _ => rfl) ⟨rfl, rfl⟩ (.inl rfl)
      (fun _ _ _ hx => .inl hx) (fun _ _ => hmem) (fun _ _ => .inl ⟨k, hk, hdone⟩) (by simp)
  | returned hphase hstatus hkind =>
    have hended := (hw.sound hk).ended_eq_none (by simp [hphase])
    have hdone : k.isDone s.host.machine = true := by simp [Call.isDone, hphase, hstatus]
    exact hc.put hw (puts_put hk) (comes_finish hk hended) rfl (fun _ _ _ _ => rfl) (fun _ _ => rfl) ⟨rfl, rfl⟩
      (.inl rfl) (fun _ _ _ hx => .inl hx) (fun hread => absurd hread hkind) (fun _ _ => .inl ⟨k, hk, hdone⟩)
      (fun _ hread => absurd hread hkind)
  | stored hphase hmachine hcache =>
    have hended := (hw.sound hk).ended_eq_none (by simp [hphase])
    have hkind := (hw.sound hk).reads (.inr (.inr hphase))
    have hdone : k.isDone s.host.machine = true := by simp [Call.isDone, hphase]
    have hmem := hc.mem_eq hw hk hkind hdone hended
    refine hc.put hw (puts_put hk) (comes_finish hk hended) hmachine (fun _ _ _ _ => rfl) (fun _ _ => rfl) ⟨rfl, rfl⟩
      (.inl rfl) ?_ (fun _ _ => hmem) (fun _ _ => .inl ⟨k, hk, hdone⟩) (by simp)
    intro d l x hx
    exact (hcache d l x hx).imp id fun hnew => ⟨hnew.1, hnew.2.1, hnew.2.2.symm.trans hmem⟩

end

end

end Btos.Modules.Ata.Queue
