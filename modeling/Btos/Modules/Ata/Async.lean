import Btos.Modules.Ata.Serving
import Btos.Modules.Ata.Device
import Mathlib.Order.Interval.Set.Infinite

/-!
# Asynchronous calls

`AsyncReadSector`, `AsyncWriteSector` and `Await` of `ATAHDDDevice`, against `ReadSector` and `WriteSector`.  A call
has the worker run beside it: some steps before there is room for its operation, and some until it goes on.

* `Host.asyncReadSector`, `Host.asyncWriteSector`, `Host.awaitId` — **the calls that do not, and the waiting**.  The
  number that they return is 0 or 1 for a result; a block from the cache gives 0, which is a failure.  The
  operation of a write has the type of a read from a CD;
* `async_agrees_iff` — **exactly if the sector is not in the cache, and the queue is not in use**, or its worker is
  stuck, so that nothing returns.
-/

namespace Btos.Modules.Ata.Queue

open Lib Function Option Machine Host
open Lib.Transition
open Modules.BlockCache

variable {Block : Type*}

/-! ### The calls -/

structure Env (Block : Type*) where
  address : ℕ
  before : List (Answer Block)
  during : List (Answer Block)
  readOk : Bool

/-- The operation of `ata_enqueue_write`. -/
def enqueuedWriteOperation (d : Drive) (lba c pid : ℕ) : ATAOperation :=
  { ATAOperation.default with type := .atapiRead, drive := d, lba := lba % 2 ^ 32, buf := .caller c, pid := pid }

namespace Host

def enqueue (h : Host Block) (env : Env Block) (o : ATAOperation) : Option (Host Block) :=
  (exec work h.machine env.before).bind fun m =>
    (m.add env.address o).map fun m => { h with machine := m }

/-- The caller goes on when the operation is no longer pending. -/
def await (h : Host Block) (a : ℕ) (during : List (Answer Block)) : Option (Bool × Host Block) :=
  (exec work h.machine during).bind fun m =>
    if (m.op a).status = .pending then none
    else some (decide ((m.op a).status = .complete), { h with machine := m })

def readSector (h : Host Block) (env : Env Block) (d : Drive) (lba c pid : ℕ) : Option (Bool × Host Block) :=
  let r := (h.openCache d).retrieve d lba c
  if r.2 then some (true, r.1)
  else
    let ret :=
      if r.1.queueReady then
        (r.1.enqueue env (readOperation d lba c pid)).bind fun h => h.await env.address env.during
      else some (env.readOk, { r.1 with
        machine := r.1.machine.readSector d (lba % 2 ^ 32) (.caller c) env.readOk })
    ret.map fun r => (r.1, if r.1 then r.2.storeBlock d lba c else r.2)

def writeSector (h : Host Block) (env : Env Block) (d : Drive) (lba c pid : ℕ) : Option (Bool × Host Block) :=
  let h := h.dropBlock d lba
  if h.queueReady then
    (h.enqueue env (writeOperation d lba c pid)).bind fun h => h.await env.address env.during
  else some (true, { h with machine := h.machine.writeSector d (lba % 2 ^ 32) (.caller c) })

/-- `AsyncReadSector`, with the number that is returned. -/
def asyncReadSector (h : Host Block) (env : Env Block) (d : Drive) (lba c pid : ℕ) : Option (ℕ × Host Block) :=
  let r := (h.openCache d).retrieve d lba c
  if r.2 then some (0, r.1)
  else if r.1.queueReady then
    (r.1.enqueue env (readOperation d lba c pid)).map fun h => (env.address, h)
  else some (env.readOk.toNat, { r.1 with
    machine := r.1.machine.readSector d (lba % 2 ^ 32) (.caller c) env.readOk })

def asyncWriteSector (h : Host Block) (env : Env Block) (d : Drive) (lba c pid : ℕ) : Option (ℕ × Host Block) :=
  let h := h.dropBlock d lba
  if h.queueReady then
    (h.enqueue env (enqueuedWriteOperation d lba c pid)).map fun h => (env.address, h)
  else some (true.toNat, { h with machine := h.machine.writeSector d (lba % 2 ^ 32) (.caller c) })

/-- `Await`. -/
def awaitId (h : Host Block) (id : ℕ) (during : List (Answer Block)) : Option (Bool × Host Block) :=
  if id < 2 then some (decide (id ≠ 0), h) else h.await id during

def withBuffer (h : Host Block) (c : ℕ) (x : Block) : Host Block :=
  { h with machine := h.machine.fill (.caller c) x }

end Host

/-! ### What is to agree -/

/-- The result of a read, and what is in the buffer. -/
def readOutcome (c : ℕ) (r : Bool × Host Block) : Bool × Block := (r.1, r.2.machine.mem c)

/-- The result of a write, and what is on the disks. -/
def writeOutcome (r : Bool × Host Block) : Bool × (Drive → ℕ → Block) := (r.1, r.2.machine.disk)

def ReadAgrees (h : Host Block) (env : Env Block) (d : Drive) (lba c pid : ℕ) : Prop :=
  (h.readSector env d lba c pid).map (readOutcome c) =
    ((h.asyncReadSector env d lba c pid).bind fun r => r.2.awaitId r.1 env.during).map (readOutcome c)

def WriteAgrees (h : Host Block) (env : Env Block) (d : Drive) (lba c pid : ℕ) : Prop :=
  (h.writeSector env d lba c pid).map writeOutcome =
    ((h.asyncWriteSector env d lba c pid).bind fun r => r.2.awaitId r.1 env.during).map writeOutcome

/-- **Both kinds of calls agree** on a sector, for every caller and everything around it.  The address of an
operation is neither 0 nor 1. -/
def AsyncAgrees (h : Host Block) (d : Drive) (lba : ℕ) : Prop :=
  (∀ env c pid, 2 ≤ env.address → ReadAgrees h env d lba c pid) ∧
    ∀ env c pid x, 2 ≤ env.address → WriteAgrees (h.withBuffer c x) env d lba c pid

/-! ### Reads -/

theorem decide_toNat_ne_zero (b : Bool) : decide (b.toNat ≠ 0) = b := by
  cases b <;> rfl

variable {h : Host Block} {env : Env Block} {o : ATAOperation}

/-- **A read that is not answered by the cache** is the same. -/
theorem readAgrees_of_not_cached (hnot : ∀ x, ¬ InCache h d lba x)
    (hid : 2 ≤ env.address) : ReadAgrees h env d lba c pid := by
  have hmiss : ((h.openCache d).retrieve d lba c).2 = false := by
    rcases (retrieve_cases (h.openCache d) d lba c).2 with ⟨hmiss, -⟩ | ⟨x, hx, -⟩
    · exact hmiss
    · exact absurd (Host.inCache_of_openCache hx) (hnot x)
  simp only [ReadAgrees, Host.readSector, Host.asyncReadSector, hmiss, Bool.false_eq_true, ite_false]
  generalize ((h.openCache d).retrieve d lba c).1 = h1
  -- storing the block in the cache changes no buffer
  have hstore : ∀ r : Bool × Host Block,
      readOutcome c (r.1, if r.1 then r.2.storeBlock d lba c else r.2) = readOutcome c r := by
    intro r
    simp only [readOutcome]
    split
    · rw [Host.machine_storeBlock]
    · rfl
  rw [map_map]
  by_cases hready : h1.queueReady = true
  · simp only [hready, ite_true, bind_map]
    have hlarge : ¬ env.address < 2 := by omega
    have hawait : (fun h2 : Host Block => h2.awaitId env.address env.during) =
        fun h2 => h2.await env.address env.during := by
      funext h2
      rw [awaitId, if_neg hlarge]
    simp only [comp_def, hstore, hawait]
  · have hsmall : env.readOk.toNat < 2 := by cases env.readOk <;> decide
    simp only [hready, Bool.false_eq_true, ite_false, map_some, comp_def, hstore, bind_some,
      awaitId, hsmall, ite_true, decide_toNat_ne_zero]

/-- **A block from the cache** is a success for one and a failure for the other. -/
theorem not_readAgrees_of_cached (hx : InCache h d lba x) : ¬ ReadAgrees h env d lba c pid := by
  obtain ⟨k, hk, hfound⟩ := hx
  have hopen : h.openCache d = h := by simp [Host.openCache, hk]
  have hhit : (h.retrieve d lba c).2 = true := by
    simp [Host.retrieve, hk, Cache.retrieve_snd, hfound]
  simp [ReadAgrees, Host.readSector, Host.asyncReadSector, hopen, hhit, Host.awaitId, readOutcome]

/-! ### Writes -/

/-- **A stuck worker**: nothing is added, or nothing is done. -/
theorem enqueue_await_of_stuck (hstuck : h.machine.Stuck) (env : Env Block) (o : ATAOperation)
    (ho : o.status = .pending) : ((h.enqueue env o).bind fun h => h.await env.address env.during) = none := by
  have hwork : ∀ ans, h.machine.work ans = none := by
    intro ans
    rcases hstuck with hended | ⟨hidling, hread, hfull⟩
    · simp [work, hended]
    · have hroom : ¬ h.machine.queue.length < queueSize := by omega
      simp [work, hidling, idle, hread, hroom]
  cases hbefore : env.before with
  | cons ans as => simp [enqueue, hbefore, exec, hwork]
  | nil =>
    simp only [enqueue, hbefore, exec, bind_some, add]
    split
    · rename_i hroom
      -- there is room, so that the worker has ended
      have hended : h.machine.phase = .ended := by
        rcases hstuck with hended | ⟨-, -, hfull⟩
        · exact hended
        · omega
      cases hduring : env.during with
      | nil => simp [await, exec, ho]
      | cons ans as => simp [await, exec, work, hended]
    · rfl

theorem writeAgrees_of_idle (hidle : h.queueReady = true → h.machine.Stuck)
    (hid : 2 ≤ env.address) : WriteAgrees h env d lba c pid := by
  have hready : (h.dropBlock d lba).queueReady = h.queueReady := by
    simp only [Host.dropBlock]
    split <;> rfl
  simp only [WriteAgrees, Host.writeSector, Host.asyncWriteSector, hready]
  by_cases hq : h.queueReady = true
  · have hstuck : (h.dropBlock d lba).machine.Stuck := by
      rw [machine_dropBlock]
      exact hidle hq
    have hlarge : ¬ env.address < 2 := by omega
    simp only [hq, ite_true, bind_map, comp_def, Host.awaitId, hlarge, ite_false]
    rw [enqueue_await_of_stuck hstuck env _ rfl, enqueue_await_of_stuck hstuck env _ rfl]
  · simp [hq, Host.awaitId]

theorem exists_fresh (l : List Ref) : ∃ a, 2 ≤ a ∧ Ref.made a ∉ l := by
  have hinj : Function.Injective Ref.made := fun _ _ h => by cases h; rfl
  have hfinite : (Set.preimage Ref.made {r | r ∈ l}).Finite := l.finite_toSet.preimage hinj.injOn
  obtain ⟨a, ha, hnot⟩ := (Set.Ici_infinite 2).exists_notMem_finite hfinite
  exact ⟨a, ha, hnot⟩

/-- **Whatever its type, an operation can have its turn**, with the disks and the buffers as they were. -/
theorem exists_served {m : Machine Block} (hstuck : ¬ m.Stuck) (ho : o.status = .pending) :
    ∃ a before during m₁, 2 ≤ a ∧ exec work m before = some m₁ ∧ ∀ type, ∃ m₂ m₃ batch done,
      m₁.add a { o with type := type } = some m₂ ∧ exec work m₂ during = some m₃ ∧
      m₃.phase = .batching batch done ∧ done < batch.length ∧ m₃.least batch = some (.made a) ∧
      m₃.disk = m.disk ∧ m₃.mem = m.mem ∧ m₃.op a = { o with type := type } := by
  obtain ⟨a, ha, hnot⟩ := exists_fresh m.refs
  have hans : (⟨false, false, m.cacheBuffer, 0⟩ : Answer Block).switched = false := rfl
  obtain ⟨m₁, hbefore, hfree, hroom⟩ := exists_room hnot hstuck hans
  obtain ⟨before, hexec⟩ := hbefore.exec
  -- the machine with the operation in its queue
  obtain ⟨m₂, hm2, hphase2, hqueue2⟩ : ∃ m₂ : Machine Block,
      { m₁ with op := update m₁.op a o, queue := m₁.queue ++ [.made a] } = m₂ ∧ m₂.phase = m₁.phase ∧
        m₂.queue = m₁.queue ++ [.made a] := ⟨_, rfl, rfl, rfl⟩
  have hop2 : m₂.op a = o := by simp [← hm2]
  obtain ⟨m₃, batch, done, hduring, hphase, hlt, hleast⟩ :=
    exists_turn (hphase2 ▸ hfree.ended) (hphase2 ▸ hfree.idle) (by simp [hqueue2]) (hphase2 ▸ hfree.not_mem_batch)
      (by rw [hop2]; exact ho) hans
  obtain ⟨during, hrun⟩ := hduring.run
  refine ⟨a, before, during, m₁, ha, hexec, ?_⟩
  intro type
  refine ⟨m₂.retyped a type, m₃.retyped a type, batch, done, ?_, hrun type, hphase, hlt,
    (least_retyped m₃ a type batch).trans hleast, ?_, ?_, ?_⟩
  · simp [Machine.add, hroom, ← hm2, retyped]
  · rw [← hbefore.disk]
    exact hduring.disk.trans (by rw [← hm2])
  · rw [← hbefore.mem]
    exact hduring.mem.trans (by rw [← hm2])
  · simp [retyped, hduring.op, hop2]

theorem work_of_least {m : Machine Block} (hphase : m.phase = .batching batch done)
    (hlt : done < batch.length) (hleast : m.least batch = some r) (ans : Answer Block) :
    ∃ m₁, m.work ans = some m₁ ∧ m₁.disk = (m.process ans (some r)).1.disk ∧
      m₁.op = (m.process ans (some r)).1.op := by
  refine ⟨_, by rw [work, hphase]; exact if_pos hlt, ?_⟩
  rw [hleast]
  exact ⟨rfl, rfl⟩

/-- **A call that has its turn**, from the three parts of its run. -/
theorem enqueue_await
    (hbefore : exec work h.machine env.before = some m₁) (hadd : m₁.add env.address o = some m₂)
    (hduring : exec work m₂ during = some m₃) (hturn : m₃.work ans = some m₄)
    (hcomplete : (m₄.op env.address).status = .complete) (henv : env.during = during ++ [ans]) :
    ((h.enqueue env o).bind fun h => h.await env.address env.during) = some (true, { h with machine := m₄ }) := by
  have hexec : exec work m₂ env.during = some m₄ := by
    rw [henv, exec_append, hduring, bind_some, exec, hturn]
    rfl
  simp [enqueue, await, hbefore, hadd, hexec, hcomplete]

section Turns

variable {m : Machine Block} {batch : List Ref} {done a c lba pid : ℕ} {d : Drive} {x : Block}

theorem turn_of_write (hphase : m.phase = .batching batch done) (hlt : done < batch.length)
    (hleast : m.least batch = some (.made a)) (hop : m.op a = writeOperation d lba c pid) (hmem : m.mem c = x) :
    ∃ m₁, m.work ⟨true, true, x, 0⟩ = some m₁ ∧ m₁.disk d (sector (lba % 2 ^ 32)) = x ∧
      (m₁.op a).status = .complete := by
  obtain ⟨m₁, hturn, hdisk, hop1⟩ := work_of_least hphase hlt hleast ⟨true, true, x, 0⟩
  rw [process_write (by rw [hop]; rfl) (by rw [hop]; rfl) rfl] at hdisk hop1
  refine ⟨m₁, hturn, ?_, by simp [hop1]⟩
  simp [hdisk, setSector, hop, writeOperation, hmem]

/-- **The turn of an asynchronous write** leaves the disk as it is. -/
theorem turn_of_enqueuedWrite (hphase : m.phase = .batching batch done) (hlt : done < batch.length)
    (hleast : m.least batch = some (.made a)) (hop : m.op a = enqueuedWriteOperation d lba c pid) :
    ∃ m₁, m.work ⟨true, true, x, 0⟩ = some m₁ ∧ m₁.disk = m.disk ∧ (m₁.op a).status = .complete := by
  obtain ⟨m₁, hturn, hdisk, hop1⟩ := work_of_least hphase hlt hleast ⟨true, true, x, 0⟩
  have hprocess : (m.process ⟨true, true, x, 0⟩ (some (.made a))).1.disk = m.disk ∧
      ((m.process ⟨true, true, x, 0⟩ (some (.made a))).1.op a).status = .complete := by
    simp [Machine.process, Machine.get, hop, enqueuedWriteOperation, Machine.perform, Machine.fill, Machine.put]
  exact ⟨m₁, hturn, hdisk.trans hprocess.1, by rw [hop1]; exact hprocess.2⟩

end Turns

/-- **A queued write and an asynchronous one** leave different disks. -/
theorem exists_not_writeAgrees [Nontrivial Block] (hready : h.queueReady = true) (hstuck : ¬ h.machine.Stuck)
    (d : Drive) (lba c pid : ℕ) :
    ∃ env x, 2 ≤ env.address ∧ ¬ WriteAgrees (h.withBuffer c x) env d lba c pid := by
  obtain ⟨x, hx⟩ := exists_ne (h.machine.disk d (sector (lba % 2 ^ 32)))
  have hstuck' : ¬ (h.machine.fill (.caller c) x).Stuck := hstuck
  obtain ⟨a, before, during, m1, ha, hbefore, hrun⟩ :=
    exists_served (o := writeOperation d lba c pid) hstuck' rfl
  obtain ⟨env, rfl, rfl, hduring⟩ : ∃ env : Env Block, env.address = a ∧ env.before = before ∧
      env.during = during ++ [⟨true, true, x, 0⟩] := ⟨⟨a, before, _, true⟩, rfl, rfl, rfl⟩
  refine ⟨env, x, ha, ?_⟩
  have hq : ((h.withBuffer c x).dropBlock d lba).queueReady = true := by
    simp only [dropBlock]
    split <;> exact hready
  have hm : ((h.withBuffer c x).dropBlock d lba).machine = h.machine.fill (.caller c) x := machine_dropBlock
  have hlarge : ¬ env.address < 2 := by omega
  rw [← hm] at hbefore
  -- one reaches the disk
  obtain ⟨m2, m3, _, _, hadd, hrest, hphase, hlt, hleast, -, hmem, hop⟩ := hrun .write
  have hx3 : m3.mem c = x := by
    rw [hmem]
    exact update_self _ _ _
  obtain ⟨m4, hturn, hdisk, hcomplete⟩ := turn_of_write hphase hlt hleast hop hx3
  have hsync := enqueue_await (o := writeOperation d lba c pid) hbefore hadd hrest hturn hcomplete hduring
  -- the other does not
  obtain ⟨n2, n3, _, _, hadd', hrest', hphase', hlt', hleast', hdisk', -, hop'⟩ := hrun .atapiRead
  obtain ⟨n4, hturn', hkept, hcomplete'⟩ := turn_of_enqueuedWrite hphase' hlt' hleast' hop'
  have hasync := enqueue_await (o := enqueuedWriteOperation d lba c pid) hbefore hadd' hrest' hturn'
    hcomplete' hduring
  intro hagrees
  simp only [WriteAgrees, Host.writeSector, Host.asyncWriteSector, hq, ite_true, bind_map,
    comp_def, Host.awaitId, hlarge, ite_false] at hagrees
  rw [hsync, hasync] at hagrees
  have hdisks : m4.disk = n4.disk := congrArg Prod.snd (Option.some.inj hagrees)
  rw [hdisks, hkept, hdisk'] at hdisk
  exact hx hdisk.symm

/-! ### When they agree -/

theorem reads_agree_iff (h : Host Block) (d : Drive) (lba : ℕ) :
    (∀ env c pid, 2 ≤ env.address → ReadAgrees h env d lba c pid) ↔ ∀ x, ¬ InCache h d lba x := by
  constructor
  · intro hagrees x hx
    exact not_readAgrees_of_cached hx (hagrees ⟨2, [], [], true⟩ 0 0 le_rfl)
  · intro hnot env c pid hid
    exact readAgrees_of_not_cached hnot hid

theorem writes_agree_iff [Nontrivial Block] (h : Host Block) (d : Drive) (lba : ℕ) :
    (∀ env c pid x, 2 ≤ env.address → WriteAgrees (h.withBuffer c x) env d lba c pid) ↔
      (h.queueReady = true → h.machine.Stuck) := by
  constructor
  · intro hagrees hready
    by_contra hstuck
    obtain ⟨env, x, hid, hnot⟩ := exists_not_writeAgrees hready hstuck d lba 0 0
    exact hnot (hagrees env 0 0 x hid)
  · intro hidle env c pid x hid
    exact writeAgrees_of_idle hidle hid

/-- **Asynchronous calls are like the others** exactly if the sector is not in the block cache and the queue is not
in use, or its worker stuck. -/
theorem async_agrees_iff [Nontrivial Block] (h : Host Block) (d : Drive) (lba : ℕ) :
    AsyncAgrees h d lba ↔ (∀ x, ¬ InCache h d lba x) ∧ (h.queueReady = true → h.machine.Stuck) :=
  and_congr (reads_agree_iff h d lba) (writes_agree_iff h d lba)

/-- Disks of zeros, before anything was read or written. -/
def zeroHost (cacheLoaded queueReady : Bool) : Host ℕ :=
  { (initial (fun _ _ => 0) (fun _ => 0) 0).host with cacheLoaded := cacheLoaded, queueReady := queueReady }

/-- Without a queue they agree, and with one they do not. -/
theorem async_agrees_iff_zeroHost :
    AsyncAgrees (zeroHost true false) ⟨0, 0⟩ 5 ∧ ¬ AsyncAgrees (zeroHost true true) ⟨0, 0⟩ 5 := by
  constructor
  · refine (async_agrees_iff _ _ _).mpr ⟨?_, by simp [zeroHost]⟩
    rintro x ⟨k, hk, -⟩
    cases hk
  · intro h
    rcases ((async_agrees_iff _ _ _).mp h).2 rfl with hended | ⟨hidling, -⟩
    · cases hended
    · cases hidling

/-- The process of the caller is there, and the disk can be read: the worker takes the operation and performs it. -/
def servedEnv : Env ℕ := ⟨2, [], [⟨true, true, 0, 0⟩, ⟨true, true, 0, 0⟩], true⟩

/-- **A block from the cache, and a write of 7s that is queued.** -/
theorem async_differs :
    (∃ r, (zeroHost true false).readSector servedEnv ⟨0, 0⟩ 5 0 1 = some r ∧ ¬ AsyncAgrees r.2 ⟨0, 0⟩ 5) ∧
      ¬ AsyncAgrees (zeroHost true true) ⟨0, 0⟩ 5 := by
  constructor
  · -- the first read has put the block into the cache
    refine ⟨_, rfl, fun h => ?_⟩
    have hread := h.1 servedEnv 0 1 le_rfl
    revert hread
    rw [ReadAgrees]
    decide +kernel
  · intro h
    have hdisk := congrArg (Option.map fun o => o.2 ⟨0, 0⟩ 5) (h.2 servedEnv 0 1 7 le_rfl)
    revert hdisk
    decide +kernel

end Btos.Modules.Ata.Queue
