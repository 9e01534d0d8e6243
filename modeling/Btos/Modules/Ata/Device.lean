import Btos.Modules.Ata.Queue
import Btos.Modules.BlockCache

/-!
# Hard disks

The parts of `ATAHDDDevice::ReadSector` and `WriteSector` in `modules/hwpnp/ata/ata.cpp`, each of which is one
atomic step, and the calls that are made of them.

* `Call`, `CallPhase` — **a call that is being made**, with the time of its beginning and its end;
* `System`, `Act`, `step` — **any number of threads** that make calls, and the worker;
* `System.copies` — **the copies of a sector**: besides the disk, the block cache, the buffer of reading ahead and the
  buffer of a read that has got its data and is about to store it in the cache hold one;
* `StepOk` — **the condition on a step**: sector numbers have 28 bits, processes are there and disks can be read,
  and when a sector is written, no copy of it with other contents exists.

The sector numbers of a call have 64 bits, those of an operation 32.
-/

namespace Btos.Modules.Ata.Queue

open Modules.BlockCache List

/-! ### The steps of a call -/

structure Host (Block : Type*) where
  machine : Machine Block
  cache : Drive → Option (Cache Block)
  cacheLoaded : Bool
  queueReady : Bool

variable {Block : Type*}

/-- `btos_api::CreateCache(ATA_SECTOR_SIZE, 8192)`. -/
def newCache : Cache Block := Cache.create 512 8192 (by decide)

def readOperation (d : Drive) (lba c pid : ℕ) : ATAOperation :=
  { ATAOperation.default with type := .read, drive := d, lba := lba % 2 ^ 32, buf := .caller c, pid := pid }

def writeOperation (d : Drive) (lba c pid : ℕ) : ATAOperation :=
  { ATAOperation.default with type := .write, drive := d, lba := lba % 2 ^ 32, buf := .caller c, pid := pid }

def syncOperation (pid : ℕ) : ATAOperation := { ATAOperation.default with pid := pid }

namespace Host

def setCache (h : Host Block) (d : Drive) (k : Cache Block) : Host Block :=
  { h with cache := Function.update h.cache d (some k) }

/-- A cache is made when there is none and the module is there. -/
def openCache (h : Host Block) (d : Drive) : Host Block :=
  match h.cache d with
  | none => if h.cacheLoaded then h.setCache d newCache else h
  | some _ => h

def retrieve (h : Host Block) (d : Drive) (lba c : ℕ) : Host Block × Bool :=
  match h.cache d with
  | none => (h, false)
  | some k =>
      let h := h.setCache d (k.retrieve lba).1
      match (k.retrieve lba).2 with
      | none => (h, false)
      | some x => ({ h with machine := h.machine.fill (.caller c) x }, true)

/-- `if(cache) cache->Store(lba, buf)`. -/
def storeBlock (h : Host Block) (d : Drive) (lba c : ℕ) : Host Block :=
  match h.cache d with
  | none => h
  | some k => h.setCache d (k.store lba (h.machine.mem c))

/-- `if(cache) cache->Drop(lba)`. -/
def dropBlock (h : Host Block) (d : Drive) (lba : ℕ) : Host Block :=
  match h.cache d with
  | none => h
  | some k => h.setCache d (k.drop lba)

end Host

/-! ### Calls -/

inductive Kind where
  | read
  | write
  | sync
  deriving DecidableEq, Repr

/-- Where a call is.  It waits for the operation at an address. -/
inductive CallPhase where
  | create
  | retrieve
  | drop
  | access
  | enqueue
  | direct
  | wait (a : ℕ)
  | store
  | finished (result : Bool)
  deriving DecidableEq, Repr

/-- **A call**, with what its buffer held at first.  The number of a call is that of its buffer, too. -/
structure Call (Block : Type*) where
  kind : Kind
  drive : Drive
  lba : ℕ
  pid : ℕ
  data : Block
  phase : CallPhase
  began : ℕ
  ended : Option ℕ
  deriving DecidableEq, Repr

def Kind.firstPhase : Kind → CallPhase
  | .read => .create
  | .write => .drop
  | .sync => .enqueue

/-- The operation of the call with number `c`. -/
def Call.operation (k : Call Block) (c : ℕ) : ATAOperation :=
  match k.kind with
  | .read => readOperation k.drive k.lba c k.pid
  | .write => writeOperation k.drive k.lba c k.pid
  | .sync => syncOperation k.pid

/-! ### The system -/

structure System (Block : Type*) where
  host : Host Block
  calls : List (Call Block)
  now : ℕ

inductive Act (Block : Type*) where
  | loadCache
  | initQueue
  | begin (kind : Kind) (drive : Drive) (lba pid : ℕ) (buf : Block)
  | advance (c a : ℕ) (readOk : Bool)
  | work (ans : Answer Block)

namespace System

def call (s : System Block) (c : ℕ) : Option (Call Block) := s.calls[c]?

def put (s : System Block) (h : Host Block) (c : ℕ) (k : Call Block) : System Block :=
  { s with host := h, calls := s.calls.set c k }

def goOn (s : System Block) (h : Host Block) (c : ℕ) (k : Call Block) (p : CallPhase) : System Block :=
  s.put h c { k with phase := p }

def finish (s : System Block) (h : Host Block) (c : ℕ) (k : Call Block) (result : Bool) : System Block :=
  s.put h c { k with phase := .finished result, ended := some s.now }

/-- No operation that is waited for is at the address. -/
def isFree (s : System Block) (a : ℕ) : Bool := s.calls.all fun k => k.phase ≠ .wait a

/-- **The next step of a call.**  An operation is made at an address that is free. -/
def advance (s : System Block) (c a : ℕ) (readOk : Bool) (k : Call Block) : Option (System Block) :=
  match k.phase with
  | .create => some (s.goOn (s.host.openCache k.drive) c k .retrieve)
  | .retrieve =>
      let r := s.host.retrieve k.drive k.lba c
      some (if r.2 then s.finish r.1 c k true else s.goOn r.1 c k .access)
  | .drop => some (s.goOn (s.host.dropBlock k.drive k.lba) c k .access)
  | .access => some (s.goOn s.host c k (if s.host.queueReady then .enqueue else .direct))
  | .enqueue =>
      if s.isFree a then
        (s.host.machine.add a (k.operation c)).map fun m => s.goOn { s.host with machine := m } c k (.wait a)
      else none
  | .direct =>
      match k.kind with
      | .read =>
          let h := { s.host with
            machine := s.host.machine.readSector k.drive (k.lba % 2 ^ 32) (.caller c) readOk }
          some (if readOk then s.goOn h c k .store else s.finish h c k false)
      | .write =>
          let h := { s.host with machine := s.host.machine.writeSector k.drive (k.lba % 2 ^ 32) (.caller c) }
          some (s.finish h c k true)
      | .sync => none
  | .wait a =>
      let status := (s.host.machine.op a).status
      if status = .pending then none
      else
        match k.kind with
        | .read => some (if status = .complete then s.goOn s.host c k .store else s.finish s.host c k false)
        | .write => some (s.finish s.host c k (status = .complete))
        | .sync => some (s.finish s.host c k true)
  | .store => some (s.finish (s.host.storeBlock k.drive k.lba c) c k true)
  | .finished _ => none

def beginCall (s : System Block) (kind : Kind) (drive : Drive) (lba pid : ℕ) (buf : Block) :
    Option (System Block) :=
  if kind = .sync ∧ s.host.queueReady = false then none
  else some { s with
    host := { s.host with machine := s.host.machine.fill (.caller s.calls.length) buf }
    calls := s.calls ++ [⟨kind, drive, lba, pid, buf, kind.firstPhase, s.now, none⟩] }

def act (s : System Block) : Act Block → Option (System Block)
  | .loadCache => some { s with host := { s.host with cacheLoaded := true } }
  | .initQueue => some { s with host := { s.host with queueReady := true } }
  | .begin kind drive lba pid buf => s.beginCall kind drive lba pid buf
  | .advance c a readOk => (s.call c).bind (s.advance c a readOk)
  | .work ans =>
      if s.host.queueReady then
        (s.host.machine.work ans).map fun m => { s with host := { s.host with machine := m } }
      else none

def tick (s : System Block) : System Block := { s with now := s.now + 1 }

end System

def step (s : System Block) (a : Act Block) : Option (System Block) := (s.act a).map System.tick

/-- Before anything is done: any disks and any memory. -/
def initial (disk : Drive → ℕ → Block) (mem : ℕ → Block) (cacheBuffer : Block) : System Block where
  host :=
    { machine := ⟨disk, mem, fun _ => { ATAOperation.default with status := .complete }, .default,
        { ATAOperation.default with status := .complete }, cacheBuffer, [], .checking⟩
      cache := fun _ => none
      cacheLoaded := false
      queueReady := false }
  calls := []
  now := 0

/-! ### Copies -/

def Call.isDone (k : Call Block) (m : Machine Block) : Bool :=
  match k.phase with
  | .wait a => (m.op a).status = .complete
  | .store => true
  | .finished _ => true
  | _ => false

/-- The data of the call are in its buffer, and it goes on. -/
def Call.hasData (k : Call Block) (m : Machine Block) : Bool := k.isDone m && k.ended.isNone

def System.copies (s : System Block) (d : Drive) (lba : ℕ) : List Block :=
  ((s.host.cache d).bind fun k => k.lookup lba).toList ++
    (if s.host.machine.idleOp.status = .complete ∧ s.host.machine.idleOp.drive = d ∧
        s.host.machine.idleOp.lba = lba then [s.host.machine.cacheBuffer] else []) ++
    s.calls.zipIdx.filterMap fun kc =>
      if kc.1.kind = .read ∧ kc.1.drive = d ∧ kc.1.lba = lba ∧ kc.1.hasData s.host.machine = true then
        some (s.host.machine.mem kc.2)
      else none

def System.deviceWrite (s : System Block) : Act Block → Option (Drive × ℕ × Block)
  | .advance c _ _ =>
      (s.call c).bind fun k =>
        if k.phase = .direct ∧ k.kind = .write then some (k.drive, k.lba, s.host.machine.mem c) else none
  | .work _ =>
      match s.host.machine.phase with
      | .batching batch done =>
          if done < batch.length then
            (s.host.machine.least batch).bind fun r =>
              let op := s.host.machine.get r
              if op.type = .write then some (op.drive, op.lba, s.host.machine.load op.buf) else none
          else none
      | _ => none
  | _ => none

def Act.isOk : Act Block → Bool
  | .begin _ _ lba _ _ => lba < 2 ^ 28
  | .advance _ _ readOk => readOk
  | .work ans => ans.switched && ans.readOk
  | _ => true

def StepOk (s : System Block) (a : Act Block) : Prop :=
  a.isOk = true ∧ ∀ w ∈ s.deviceWrite a, ∀ x ∈ s.copies w.1 w.2.1, x = w.2.2

/-! ### What reads are to give -/

/-- A call has returned before another begins. -/
def Call.Before (k k' : Call Block) : Prop := ∃ t, k.ended = some t ∧ t < k'.began

structure Call.WritesSectorOf (w k : Call Block) : Prop where
  kind : w.kind = .write
  drive : w.drive = k.drive
  lba : w.lba = k.lba

def InCache (h : Host Block) (d : Drive) (lba : ℕ) (x : Block) : Prop :=
  ∃ k, h.cache d = some k ∧ k.lookup lba = some x

/-- A sector is in the buffer of reading ahead. -/
def IsAhead (m : Machine Block) (d : Drive) (lba : ℕ) (x : Block) : Prop :=
  m.idleOp.status = .complete ∧ m.idleOp.drive = d ∧ m.idleOp.lba = lba ∧ m.cacheBuffer = x

def IsRead (s : System Block) (d : Drive) (lba : ℕ) (x : Block) : Prop :=
  ∃ c k, s.call c = some k ∧ k.kind = .read ∧ k.drive = d ∧ k.lba = lba ∧
    k.hasData s.host.machine = true ∧ s.host.machine.mem c = x

/-- **The three places where a copy can be.** -/
theorem mem_copies_iff (s : System Block) (d : Drive) (lba : ℕ) (x : Block) :
    x ∈ s.copies d lba ↔ InCache s.host d lba x ∨ IsAhead s.host.machine d lba x ∨ IsRead s d lba x := by
  simp only [System.copies, mem_append, or_assoc]
  refine or_congr ?_ (or_congr ?_ ?_)
  · rw [Option.mem_toList, Option.bind_eq_some_iff]
    rfl
  · split
    · rename_i h
      rw [mem_singleton]
      constructor
      · intro hx
        exact ⟨h.1, h.2.1, h.2.2, hx.symm⟩
      · intro hx
        exact hx.2.2.2.symm
    · rename_i h
      refine iff_of_false not_mem_nil ?_
      intro hx
      exact h ⟨hx.1, hx.2.1, hx.2.2.1⟩
  · simp only [IsRead, mem_filterMap, Option.ite_none_right_eq_some, Option.some.injEq]
    constructor
    · rintro ⟨⟨k, c⟩, hmem, hk, hx⟩
      exact ⟨c, k, mem_zipIdx_iff_getElem?.mp hmem, hk.1, hk.2.1, hk.2.2.1, hk.2.2.2, hx⟩
    · rintro ⟨c, k, hmem, hkind, hdrive, hlba, hdata, hx⟩
      exact ⟨(k, c), mem_zipIdx_iff_getElem?.mpr hmem, ⟨hkind, hdrive, hlba, hdata⟩, hx⟩

/-! ### The calls of the cache -/

namespace Host

variable {h : Host Block} {d d' : Drive} {lba l c : ℕ} {x : Block}

theorem inCache_setCache_iff :
    InCache (h.setCache d k) d' l x ↔ d' = d ∧ k.lookup l = some x ∨ d' ≠ d ∧ InCache h d' l x := by
  by_cases hd : d' = d
  · subst hd
    simp [InCache, setCache]
  · simp [InCache, setCache, hd]

/-- **A new cache is empty.** -/
theorem inCache_of_openCache (hx : InCache (h.openCache d) d' l x) : InCache h d' l x := by
  simp only [openCache] at hx
  split at hx
  · split at hx
    · rcases inCache_setCache_iff.mp hx with ⟨-, hnew⟩ | ⟨-, hx⟩
      · cases hnew
      · exact hx
    · exact hx
  · exact hx

@[simp] theorem machine_openCache : (h.openCache d).machine = h.machine := by
  simp only [openCache]
  split
  · split <;> rfl
  · rfl

theorem inCache_of_dropBlock (hx : InCache (h.dropBlock d lba) d' l x) : InCache h d' l x := by
  simp only [dropBlock] at hx
  split at hx
  · exact hx
  · rename_i k hk
    rcases inCache_setCache_iff.mp hx with ⟨rfl, hfound⟩ | ⟨-, hx⟩
    · rw [Cache.lookup_drop] at hfound
      split at hfound
      · cases hfound
      · exact ⟨k, hk, hfound⟩
    · exact hx

@[simp] theorem machine_dropBlock : (h.dropBlock d lba).machine = h.machine := by
  simp only [dropBlock]
  split <;> rfl

/-- **What is stored** is the buffer of the call. -/
theorem inCache_of_storeBlock (hx : InCache (h.storeBlock d lba c) d' l x) :
    InCache h d' l x ∨ d' = d ∧ l = lba ∧ h.machine.mem c = x := by
  simp only [storeBlock] at hx
  split at hx
  · exact .inl hx
  · rename_i k hk
    rcases inCache_setCache_iff.mp hx with ⟨rfl, hfound⟩ | ⟨-, hx⟩
    · by_cases hl : l = lba
      · rw [hl, Cache.lookup_store_self, Option.some.injEq] at hfound
        exact .inr ⟨rfl, hl, hfound⟩
      · exact .inl ⟨k, hk, Cache.lookup_store_of_ne hl hfound⟩
    · exact .inl hx

@[simp] theorem machine_storeBlock : (h.storeBlock d lba c).machine = h.machine := by
  simp only [storeBlock]
  split <;> rfl

/-- **`Retrieve`** finds the block or changes nothing. -/
theorem retrieve_cases (h : Host Block) (d : Drive) (lba c : ℕ) :
    (∀ d' l x, InCache (h.retrieve d lba c).1 d' l x → InCache h d' l x) ∧
      ((h.retrieve d lba c).2 = false ∧ (h.retrieve d lba c).1.machine = h.machine ∨
        ∃ x, InCache h d lba x ∧ (h.retrieve d lba c).2 = true ∧
          (h.retrieve d lba c).1.machine = h.machine.fill (.caller c) x) := by
  simp only [retrieve]
  cases hk : h.cache d with
  | none => exact ⟨fun _ _ _ hx => hx, .inl ⟨rfl, rfl⟩⟩
  | some k =>
    have hsame : ∀ d' l x, InCache (h.setCache d (k.retrieve lba).1) d' l x → InCache h d' l x := by
      intro d' l x hx
      rcases inCache_setCache_iff.mp hx with ⟨rfl, hfound⟩ | ⟨-, hx⟩
      · rw [Cache.lookup_retrieve] at hfound
        exact ⟨k, hk, hfound⟩
      · exact hx
    simp only [Cache.retrieve_snd]
    cases hx : k.lookup lba with
    | none => exact ⟨hsame, .inl ⟨rfl, rfl⟩⟩
    | some x => exact ⟨hsame, .inr ⟨x, ⟨k, hk, hx⟩, rfl, rfl⟩⟩

end Host

end Btos.Modules.Ata.Queue
