import Mathlib.Tactic.Common
import Mathlib.Algebra.Group.Nat.Defs
import Mathlib.Logic.Function.Basic

/-!
# The queue of disk operations

`modules/hwpnp/ata/queue.cpp` over `OperationQueue` (`include/module/utils/operationqueue.hpp`).  One worker thread
takes the operations from the queue, in batches, and sorts a batch by sector.  When it has nothing to do after a
read, it reads the next sector ahead, into a buffer of its own.

* `Machine.perform`, `Machine.process` — **one operation**: a read of the sector that was read ahead is answered
  from that buffer;
* `Machine.work` — **one step of the worker**, with an `Answer` for what is outside: whether the process of the
  caller is there, whether the disk can be read.

An operation that has ended stays in memory as it was until another one is made at its address.  Operations of
`ATAPIRead` are for other drives, but `AsyncWriteSector` makes them, too.
-/

namespace Btos.Modules.Ata.Queue

open Function

/-! ### Operations -/

inductive ATAOperationType where
  | read
  | write
  | sync
  | shutdown
  | atapiRead
  deriving DecidableEq, Repr

inductive ATAOperationStatus where
  | pending
  | error
  | complete
  deriving DecidableEq, Repr

structure Drive where
  bus : ℕ
  index : ℕ
  deriving DecidableEq, Repr

/-- The buffer of a caller, or that of the queue. -/
inductive Buf where
  | caller (c : ℕ)
  | cacheBuffer
  deriving DecidableEq, Repr

/-- `ATAOperation`.  Every read is of a whole sector, and the thread is not used. -/
structure ATAOperation where
  type : ATAOperationType
  status : ATAOperationStatus
  drive : Drive
  lba : ℕ
  buf : Buf
  pid : ℕ
  retval : ℕ
  deriving DecidableEq, Repr

def ATAOperation.default : ATAOperation := ⟨.sync, .pending, ⟨0, 0⟩, 0, .caller 0, 0, 0⟩

/-- A pointer to `idleOp`, or to an operation that a caller has made. -/
inductive Ref where
  | idleOp
  | made (a : ℕ)
  deriving DecidableEq, Repr

/-- Where the worker is: in the loop of `MakeBatch`, or in a batch of which a number of turns is done. -/
inductive Phase where
  | checking
  | idling
  | blocked
  | batching (batch : List Ref) (done : ℕ)
  | ended
  deriving DecidableEq, Repr

/-- What is found outside: `SwitchProcess`, the result of reading a sector, and what a packet command leaves. -/
structure Answer (Block : Type*) where
  switched : Bool
  readOk : Bool
  packet : Block
  length : ℕ

/-! ### The machine -/

structure Machine (Block : Type*) where
  disk : Drive → ℕ → Block
  mem : ℕ → Block
  op : ℕ → ATAOperation
  idleOp : ATAOperation
  lastOperation : ATAOperation
  cacheBuffer : Block
  queue : List Ref
  phase : Phase

variable {Block : Type*}

/-- The bits of a sector number that reach the drive. -/
def sector (lba : ℕ) : ℕ := lba % 2 ^ 28

def queueSize : ℕ := 256

namespace Machine

def get (m : Machine Block) : Ref → ATAOperation
  | .idleOp => m.idleOp
  | .made a => m.op a

def put (m : Machine Block) (r : Ref) (o : ATAOperation) : Machine Block :=
  match r with
  | .idleOp => { m with idleOp := o }
  | .made a => { m with op := update m.op a o }

def load (m : Machine Block) : Buf → Block
  | .caller c => m.mem c
  | .cacheBuffer => m.cacheBuffer

def fill (m : Machine Block) (b : Buf) (x : Block) : Machine Block :=
  match b with
  | .caller c => { m with mem := update m.mem c x }
  | .cacheBuffer => { m with cacheBuffer := x }

def setSector (m : Machine Block) (d : Drive) (l : ℕ) (x : Block) : Machine Block :=
  { m with disk := fun d' l' => if d' = d ∧ l' = l then x else m.disk d' l' }

/-- `ata_device_read_sector`: without success the buffer stays as it is. -/
def readSector (m : Machine Block) (d : Drive) (lba : ℕ) (b : Buf) (ok : Bool) : Machine Block :=
  if ok then m.fill b (m.disk d (sector lba)) else m

/-- `ata_device_write_sector`. -/
def writeSector (m : Machine Block) (d : Drive) (lba : ℕ) (b : Buf) : Machine Block :=
  m.setSector d (sector lba) (m.load b)

/-- The `switch` of `Process`.  The result of a read is not looked at. -/
def perform (m : Machine Block) (ans : Answer Block) (r : Ref) : Machine Block × Bool :=
  let op := m.get r
  match op.type with
  | .read => ((m.readSector op.drive op.lba op.buf ans.readOk).put r { op with status := .complete }, true)
  | .write => ((m.writeSector op.drive op.lba op.buf).put r { op with status := .complete }, true)
  | .atapiRead => ((m.fill op.buf ans.packet).put r { op with retval := ans.length, status := .complete }, true)
  | .sync => (m.put r { op with status := .complete }, true)
  | .shutdown => (m, false)

/-- **`Process`**, and whether the worker goes on. -/
def process (m : Machine Block) (ans : Answer Block) : Option Ref → Machine Block × Bool
  | none => (m, true)
  | some r =>
      let op := m.get r
      let m := if r = .idleOp then m else { m with lastOperation := op }
      if r ≠ .idleOp ∧ op.type = .read ∧ m.idleOp.status = .complete ∧ op.drive = m.idleOp.drive ∧
          op.lba = m.idleOp.lba ∧ ans.switched = true then
        ((m.fill op.buf m.cacheBuffer).put r { op with status := .complete }, true)
      else if ans.switched then m.perform ans r
      else (m.put r { op with status := .error }, true)

/-- One turn of the loop in `Batch` that looks for an operation. -/
def choose (m : Machine Block) (next : Option Ref) (r : Ref) : Option Ref :=
  if (m.get r).status ≠ .pending then next
  else match next with
    | none => some r
    | some n => if (m.get r).lba < (m.get n).lba then some r else next

/-- **The pending operation with the least sector number**, as `Batch` finds it. -/
def least (m : Machine Block) (batch : List Ref) : Option Ref := batch.foldl m.choose none

/-- `Idle`: there is no result if there is no room for the operation. -/
def idle (m : Machine Block) : Option (Machine Block) :=
  if m.lastOperation.type = .read then
    if m.queue.length < queueSize then
      some { m with
        idleOp := { m.lastOperation with
          buf := .cacheBuffer, pid := 0, lba := (m.lastOperation.lba + 1) % 2 ^ 32, status := .pending }
        queue := m.queue ++ [.idleOp]
        lastOperation := { m.lastOperation with type := .sync } }
    else none
  else some m

def work (m : Machine Block) (ans : Answer Block) : Option (Machine Block) :=
  match m.phase with
  | .checking =>
      if m.queue = [] then some { m with phase := .idling }
      else some { m with queue := [], phase := .batching m.queue 0 }
  | .idling => m.idle.map fun m => { m with phase := .blocked }
  | .blocked => if m.queue = [] then none else some { m with phase := .checking }
  | .batching batch done =>
      if done < batch.length then
        let r := m.process ans (m.least batch)
        some { r.1 with phase := if r.2 then .batching batch (done + 1) else .ended }
      else some { m with phase := .checking }
  | .ended => none

/-- `Add`: there is no result while there is no room. -/
def add (m : Machine Block) (a : ℕ) (o : ATAOperation) : Option (Machine Block) :=
  if m.queue.length < queueSize then
    some { m with op := update m.op a o, queue := m.queue ++ [.made a] }
  else none

/-! ### The choice in a batch -/

theorem choose_cases {m : Machine Block} {next : Option Ref} {r n : Ref} (h : m.choose next r = some n) :
    next = some n ∨ n = r ∧ (m.get r).status = .pending := by
  simp only [choose] at h
  split at h
  · exact .inl h
  · rename_i hpending
    rw [not_not] at hpending
    split at h
    · cases h
      exact .inr ⟨rfl, hpending⟩
    · split at h
      · cases h
        exact .inr ⟨rfl, hpending⟩
      · exact .inl h

/-- **What is chosen** is in the batch, and pending. -/
theorem get_of_least {m : Machine Block} {batch : List Ref} {r : Ref} (h : m.least batch = some r) :
    r ∈ batch ∧ (m.get r).status = .pending := by
  -- over the whole loop, from any choice so far
  suffices hfold : ∀ (l : List Ref) (next : Option Ref) (n : Ref), l.foldl m.choose next = some n →
      next = some n ∨ n ∈ l ∧ (m.get n).status = .pending from
    (hfold batch none r h).resolve_left (by simp)
  intro l
  induction l with
  | nil =>
    intro next n hn
    exact .inl hn
  | cons r l ih =>
    intro next n hn
    rcases ih (m.choose next r) n hn with hchoose | ⟨hmem, hpending⟩
    · rcases choose_cases hchoose with hnext | ⟨rfl, hpending⟩
      · exact .inl hnext
      · exact .inr ⟨List.mem_cons_self, hpending⟩
    · exact .inr ⟨List.mem_cons_of_mem _ hmem, hpending⟩

/-! ### What a step can do -/

/-- The operations that the worker can reach. -/
def refs (m : Machine Block) : List Ref :=
  m.queue ++ match m.phase with
    | .batching batch _ => batch
    | _ => []

/-- **The worker has only looked at the queue**, or has put the operation of reading ahead there. -/
structure Looked (m m' : Machine Block) : Prop where
  disk : m'.disk = m.disk
  mem : m'.mem = m.mem
  op : m'.op = m.op
  cacheBuffer : m'.cacheBuffer = m.cacheBuffer
  idleOp : m'.idleOp = m.idleOp ∧ m'.refs ⊆ m.refs ∨
    m'.idleOp.type = .read ∧ m'.idleOp.status = .pending ∧ m'.idleOp.buf = .cacheBuffer ∧
      m'.refs ⊆ .idleOp :: m.refs

/-- **A step looks at the queue or processes one pending operation.** -/
theorem work_cases {ans : Answer Block} (h : m.work ans = some m') :
    Looked m m' ∨ ∃ batch done r, m.phase = .batching batch done ∧ done < batch.length ∧
      m.least batch = some r ∧ m' = { (m.process ans (some r)).1 with
        phase := if (m.process ans (some r)).2 then .batching batch (done + 1) else .ended } := by
  simp only [work] at h
  cases hphase : m.phase with
  | checking =>
    simp only [hphase] at h
    split at h
    · cases h
      exact .inl ⟨rfl, rfl, rfl, rfl, .inl ⟨rfl, by simp [refs, hphase]⟩⟩
    · cases h
      exact .inl ⟨rfl, rfl, rfl, rfl, .inl ⟨rfl, by simp [refs, hphase]⟩⟩
  | idling =>
    simp only [hphase, Option.map_eq_some_iff, idle] at h
    obtain ⟨m1, h1, rfl⟩ := h
    split at h1
    · rename_i hread
      split at h1
      · cases h1
        refine .inl ⟨rfl, rfl, rfl, rfl, .inr ⟨hread, rfl, rfl, ?_⟩⟩
        intro r hr
        simpa [refs, hphase, or_comm] using hr
      · cases h1
    · cases h1
      exact .inl ⟨rfl, rfl, rfl, rfl, .inl ⟨rfl, by simp [refs, hphase]⟩⟩
  | blocked =>
    simp only [hphase] at h
    split at h
    · cases h
    · cases h
      exact .inl ⟨rfl, rfl, rfl, rfl, .inl ⟨rfl, by simp [refs, hphase]⟩⟩
  | batching batch done =>
    simp only [hphase] at h
    split at h
    · rename_i hlt
      cases hleast : m.least batch with
      | none =>
        rw [hleast] at h
        cases h
        exact .inl ⟨rfl, rfl, rfl, rfl, .inl ⟨rfl, by simp [refs, hphase, process]⟩⟩
      | some r =>
        rw [hleast] at h
        cases h
        exact .inr ⟨batch, done, r, rfl, hlt, hleast, rfl⟩
    · cases h
      exact .inl ⟨rfl, rfl, rfl, rfl, .inl ⟨rfl, by simp [refs, hphase]⟩⟩
  | ended => simp [hphase] at h

structure Added (m : Machine Block) (a : ℕ) (o : ATAOperation) (m' : Machine Block) : Prop where
  disk : m'.disk = m.disk
  mem : m'.mem = m.mem
  op : m'.op = update m.op a o
  cacheBuffer : m'.cacheBuffer = m.cacheBuffer
  idleOp : m'.idleOp = m.idleOp
  idleOp_mem : Ref.idleOp ∈ m'.refs ↔ Ref.idleOp ∈ m.refs

theorem add_spec (h : m.add a o = some m') : Added m a o m' := by
  simp only [add] at h
  split at h
  · cases h
    exact ⟨rfl, rfl, rfl, rfl, rfl, by simp [refs]⟩
  · cases h

/-- The operation at an address is completed. -/
structure Completed (m : Machine Block) (a : ℕ) (m' : Machine Block) : Prop where
  op : m'.op = update m.op a { m.op a with status := .complete }
  cacheBuffer : m'.cacheBuffer = m.cacheBuffer
  idleOp : m'.idleOp = m.idleOp
  refs_subset : m'.refs ⊆ m.refs

/-! ### One operation -/

section

variable {m : Machine Block} {ans : Answer Block} {a c : ℕ}

/-- The machine that remembers its last operation. -/
def remember (m : Machine Block) (o : ATAOperation) : Machine Block := { m with lastOperation := o }

/-- **A write** changes its sector of the disk. -/
theorem process_write (htype : (m.op a).type = .write) (hbuf : (m.op a).buf = .caller c)
    (hswitched : ans.switched = true) : (m.process ans (some (.made a))).1 =
      { (m.remember (m.op a)).setSector (m.op a).drive (sector (m.op a).lba) (m.mem c) with
        op := update m.op a { m.op a with status := .complete } } := by
  simp [process, get, htype, hswitched, perform, writeSector, load, hbuf, put, setSector, remember]

end

end Machine

end Btos.Modules.Ata.Queue
