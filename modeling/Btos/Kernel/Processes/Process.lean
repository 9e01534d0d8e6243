import Btos.Util.Map
import Btos.Lib.Table
import Mathlib.Algebra.Group.Nat.Defs

/-!
# Processes

`kernel/processes/impl/process.cpp` and `processmanager.cpp`: what the kernel keeps about a process, what the process
manager does with its processes, and environment variables; a global variable is one of the kernel's.

* `ProcessManager` — **the processes that exist**, the current one, and those the cleanup thread has collected;
* `setVariable` — **the part of `SetEnvironmentVariable` that changes an environment**, with its checks.

A panic has no state after it.  Process numbers are natural numbers (the counter has 64 bits), and of the
threads only what they do to a process is here.  The handles of a process have a module of their own.
-/

namespace Btos.Kernel.Processes

open Util

/-! ### A process -/

abbrev Text := List Char

structure EnvironmentVariable where
  value : Text
  flags : BitVec 8
  deriving DecidableEq, Repr

/-- `bt_proc_status`. -/
inductive Status where
  | doesNotExist
  | running
  | ending
  | starting
  | held
  deriving DecidableEq, Repr

structure Process where
  pid : ℕ
  parent : ℕ
  returnValue : ℤ
  status : Status
  childReturns : Map ℕ ℤ
  environment : Map Text EnvironmentVariable
  permissions : Map (BitVec 16) (BitVec 64)
  refCount : ℕ
  readyForCleanup : Bool

namespace Process

def setExitCode (p : Process) (value : ℤ) : Process := { p with returnValue := value }

/-- `SetReturnValue`, which is the same. -/
def setReturnValue (p : Process) (rV : ℤ) : Process := p.setExitCode rV

/-- **`GetChildReturnValue`**: what it returns, and the process after it. -/
def getChildReturnValue (p : Process) (childPid : ℕ) : ℤ × Process :=
  if p.childReturns.hasKey childPid then
    -- the key is the number of the process itself
    let r := p.childReturns.index 0 p.pid
    (r.1, { p with childReturns := r.2 })
  else (0, p)

def setChildReturnValue (p : Process) (childPid : ℕ) (returnValue : ℤ) : Process :=
  { p with childReturns := p.childReturns.set childPid returnValue }

def incrementRefCount (p : Process) : Option Process :=
  if p.refCount + 1 > (2 ^ 32 - 1) / 2 then none else some { p with refCount := p.refCount + 1 }

def decrementRefCount (p : Process) : Option Process :=
  if p.refCount = 0 ∧ p.pid ≠ 0 then none
  else
    let n := p.refCount - 1
    some { p with
      refCount := n
      readyForCleanup := p.readyForCleanup || (decide (n ≤ 1) && decide (p.status = .ending)) }

def isReadyForCleanup (p : Process) : Bool := p.readyForCleanup && decide (p.status = .ending)

/-- The part of `End` that is done under the lock. -/
def markEnding (p : Process) : Process :=
  if p.status = .ending then p
  else { p with status := .ending, readyForCleanup := p.readyForCleanup || decide (p.refCount ≤ 1) }

end Process

/-! ### The process manager -/

/-- A process that has been cleaned up.  No function of the kernel reads this. -/
structure Ended where
  pid : ℕ
  parent : ℕ
  returnValue : ℤ
  deriving DecidableEq, Repr

/-- `pidCounter` has 64 bits in the code; fewer than `2 ^ 64` processes are made. -/
structure ProcessManager where
  processes : List Process
  pidCounter : ℕ
  currentProcess : ℕ
  cleanUps : List ℕ
  ended : List Ended

/-- `CreateKernelProcess`.  The list of processes has a reference to it. -/
def createKernelProcess : Process where
  pid := 0
  parent := 0
  returnValue := 0
  status := .running
  childReturns := .empty
  environment := .empty
  permissions := .empty
  refCount := 1
  readyForCleanup := false

def ProcessManager.initial : ProcessManager where
  processes := [createKernelProcess]
  pidCounter := 0
  currentProcess := 0
  cleanUps := []
  ended := []

namespace ProcessManager

def find (s : ProcessManager) (pid : ℕ) : Option Process := s.processes.find? fun p => p.pid = pid

def getByID (s : ProcessManager) (pid : ℕ) (includeEnding : Bool) : Option Process :=
  match s.find pid with
  | none => none
  | some p => if !includeEnding && decide (p.status = .ending) then none else some p

/-- A method of a process, called through a pointer to it; it may panic. -/
def callM (s : ProcessManager) (pid : ℕ) (f : Process → Option Process) : Option ProcessManager :=
  (Lib.Table.updateFirst (fun p => p.pid = pid) f s.processes).map fun ps => { s with processes := ps }

def call (s : ProcessManager) (pid : ℕ) (f : Process → Process) : Option ProcessManager :=
  s.callM pid fun p => some (f p)

/-- `CopyIn`: the variables a child gets. -/
def copyIn (env : Map Text EnvironmentVariable) : Map Text EnvironmentVariable :=
  env.items.foldl (fun m e =>
    if !e.2.flags.getLsbD 3 && !e.2.flags.getLsbD 0 then m.set e.1 e.2 else m) .empty

/-- `Process::Process`, with the number `NewProcess` gives it. -/
def child (p : Process) (pid : ℕ) : Process where
  pid := pid
  parent := p.pid
  returnValue := 0
  status := .starting
  childReturns := .empty
  environment := copyIn p.environment
  permissions := .empty
  refCount := 1
  readyForCleanup := false

/-- **`NewProcess`**. -/
def newProcess (s : ProcessManager) (parent : ℕ) : Option ProcessManager :=
  match s.find parent with
  | none => none
  | some p =>
      some { s with
        pidCounter := s.pidCounter + 1
        processes := s.processes ++ [child p (s.pidCounter + 1)] }

def switchProcess (s : ProcessManager) (pid : ℕ) : Option ProcessManager :=
  if pid = s.currentProcess then some s
  else match s.getByID pid true with
    | none => some s
    | some _ =>
        (s.callM s.currentProcess Process.decrementRefCount).bind fun t =>
          ({ t with currentProcess := pid }).callM pid Process.incrementRefCount

/-- `End`. -/
def endProcess (s : ProcessManager) (pid : ℕ) : Option ProcessManager :=
  if pid = 0 then none
  else (s.call pid Process.markEnding).bind fun t =>
    if t.currentProcess = pid then t.switchProcess 0 else some t

def terminate (s : ProcessManager) (pid : ℕ) : Option ProcessManager :=
  if pid = 0 then none
  else (s.call pid fun p => p.setExitCode (-1)).bind fun t =>
    (if t.currentProcess = pid then t.switchProcess 0 else some t).bind fun u => u.endProcess pid

/-- The first loop of the cleanup thread, which runs in the kernel's process. -/
def collect (s : ProcessManager) : Option ProcessManager :=
  if s.currentProcess = 0 ∧ s.cleanUps = [] then
    some { s with cleanUps := (s.processes.filter Process.isReadyForCleanup).map Process.pid }
  else none

/-- The exit code is passed on to the parent, if there is one that is not ending. -/
def report (s : ProcessManager) (p : Process) : Option ProcessManager :=
  if p.parent = 0 then some s
  else match s.getByID p.parent false with
    | none => some s
    | some q => s.call q.pid fun q => q.setChildReturnValue p.pid p.returnValue

def removeProcess (s : ProcessManager) (p : Process) : ProcessManager :=
  { s with processes := s.processes.filter fun q => q.pid ≠ p.pid }

/-- **`CleanupProcess`** of the next process that was collected, behind the closing of its handles. -/
def cleanup (s : ProcessManager) : Option ProcessManager :=
  match s.cleanUps with
  | [] => none
  | pid :: rest =>
      if s.currentProcess = 0 then
        (s.find pid).bind fun p =>
          (s.report p).map fun t =>
            { t.removeProcess p with
              cleanUps := rest
              ended := t.ended ++ [⟨p.pid, p.parent, p.returnValue⟩] }
      else none

end ProcessManager

/-! ### The flags of variables -/

/-- `EnvironemntVariableFlags::Global`. -/
def isGlobal (flags : BitVec 8) : Bool := flags.getLsbD 0

/-- `EnvironemntVariableFlags::ReadOnly`. -/
def isReadOnly (flags : BitVec 8) : Bool := flags.getLsbD 1

/-- `EnvironemntVariableFlags::Private`. -/
def isPrivate (flags : BitVec 8) : Bool := flags.getLsbD 2

def EnvironmentVariable.isProtected (v : EnvironmentVariable) : Bool := isPrivate v.flags || isReadOnly v.flags

/-! ### Setting a variable -/

/-- `to_upper` of a character. -/
def toUpperChar (c : Char) : Char :=
  if 'a' ≤ c ∧ c ≤ 'z' then Char.ofNat (c.toNat - 'a'.toNat + 'A'.toNat) else c

def toUpper (name : Text) : Text := name.map toUpperChar

/-- The checks of a call from user space: `true` if it is turned down. -/
def refused (env : Map Text EnvironmentVariable) (upperName : Text) (flags : BitVec 8) : Bool :=
  isPrivate flags || match env.find upperName with
    | none => false
    | some existingVariable => existingVariable.isProtected

/-- `SetEnvironmentVariable`, behind the redirection of global variables. -/
def setVariable (env : Map Text EnvironmentVariable) (name value : Text) (flags : BitVec 8)
    (userspace : Bool) : Map Text EnvironmentVariable :=
  let upperName := toUpper name
  if userspace && refused env upperName flags then env
  else if value ≠ [] then env.set upperName ⟨value, flags⟩
  else if env.hasKey upperName then env.erase upperName
  else env

namespace ProcessManager

def modifyEnvironment (s : ProcessManager) (pid : ℕ)
    (f : Map Text EnvironmentVariable → Map Text EnvironmentVariable) : Option ProcessManager :=
  s.call pid fun p => { p with environment := f p.environment }

/-- `SetGlobalEnvironmentVariable`: `userspace` is left at its default. -/
def setGlobalEnvironmentVariable (s : ProcessManager) (name value : Text) (flags : BitVec 8) :
    Option ProcessManager :=
  if !isGlobal flags then some s
  else s.modifyEnvironment 0 fun env => setVariable env name value flags false

/-- **`SetEnvironmentVariable`** of a process. -/
def setEnvironmentVariable (s : ProcessManager) (pid : ℕ) (name value : Text) (flags : BitVec 8)
    (userspace : Bool) : Option ProcessManager :=
  if pid ≠ 0 ∧ isGlobal flags then s.setGlobalEnvironmentVariable name value flags
  else s.modifyEnvironment pid fun env => setVariable env name value flags userspace

/-! ### Reading -/

/-- The variable stored in the environment of a process under a name in upper case. -/
def lookup (s : ProcessManager) (pid : ℕ) (upperName : Text) : Option EnvironmentVariable :=
  (s.find pid).bind fun p => p.environment.find upperName

/-- `GetGlobalEnvironmentVariable`: the variable, if its flags say that it is global. -/
def getGlobalEnvironmentVariable (s : ProcessManager) (name : Text) : Option EnvironmentVariable :=
  match s.lookup 0 (toUpper name) with
  | none => none
  | some v => if isGlobal v.flags then some v else none

/-- The variable `GetEnvironmentVariable` returns the value of. -/
def readVariable (s : ProcessManager) (pid : ℕ) (name : Text) (userspace : Bool) :
    Option EnvironmentVariable :=
  let upperName := toUpper name
  match s.getGlobalEnvironmentVariable upperName with
  | some global => if userspace && isPrivate global.flags then none else some global
  | none =>
      match s.lookup pid upperName with
      | none => none
      | some evar => if userspace && isPrivate evar.flags then none else some evar

/-- The variables of a process, as `GetVariableInfo` gives them. -/
def entries (s : ProcessManager) (pid : ℕ) : List (Text × EnvironmentVariable) :=
  match s.find pid with
  | none => []
  | some p => p.environment.items

/-- **The variables `EnvInfoFS` prints**: the global ones of the kernel, then those of the current process that
are not private. -/
def envEntries (s : ProcessManager) : List (Text × EnvironmentVariable) :=
  (s.entries 0).filter (fun e => isGlobal e.2.flags) ++
    (s.entries s.currentProcess).filter (fun e => !isPrivate e.2.flags)

def envLine (e : Text × EnvironmentVariable) : Text :=
  ['"'] ++ e.1 ++ "\", \"".toList ++ e.2.value ++ "\", ".toList ++ Nat.toDigits 16 e.2.flags.toNat ++ ['\n']

def envInfoFS (s : ProcessManager) : Text := "# name, value, flags\n".toList ++ s.envEntries.flatMap envLine

end ProcessManager

end Btos.Kernel.Processes
