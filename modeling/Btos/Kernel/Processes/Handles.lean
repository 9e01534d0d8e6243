import Btos.Util.Map
import Btos.Lib.Transition

/-!
# The handles of a process

`AddHandle`, `GetHandle`, `CloseAndRemoveHandle` and the part of `CleanupProcess` that closes what is left, in
`kernel/processes/impl/process.cpp`; the register of dependencies in `kernel/handles.cpp`.  A handle with a
dependency on it (a waiting list that names it, a file that is mapped) must not be closed yet.

* `HandleTable` — the handles of a process, the requests that have been put off, the register, and **a record of
  every object that has been closed**;
* `cleanupProcess` — **cleanup**: the threads first, then, round by round, whatever has no dependency on it.

Objects are numbered as they are made.  A closed object is deleted at once, so one record stands for both.
-/

namespace Btos.Kernel.Processes.Handles

open Util
open Lib.Transition

/-! ### Objects -/

/-- What is known about the objects: an object can only hold on to objects that were there before it, and closing
a thread's handle removes no dependency. -/
structure Kinds where
  isThread : ℕ → Bool
  release : ℕ → List ℕ
  release_lt : ∀ x, ∀ o ∈ release x, o < x
  release_thread : ∀ x, isThread x = true → release x = []

/-- An object that has been closed and deleted, and whether there was a dependency on it. -/
structure Closing where
  obj : ℕ
  dependency : Bool
  deriving DecidableEq, Repr

/-- The register of dependencies, and the objects that have been closed. -/
structure Register where
  handlesWithDependencies : List ℕ
  closings : List Closing
  deriving DecidableEq

namespace Register

/-- `HandleDependencyCheck`, when nobody else has the lock. -/
def depends (r : Register) (o : ℕ) : Bool := decide (o ∈ r.handlesWithDependencies)

def addHandleDependencyOn (r : Register) (o : ℕ) : Register :=
  { r with handlesWithDependencies := r.handlesWithDependencies ++ [o] }

/-- `RemoveHandleDependencyOn`: one of them, if there is one. -/
def removeHandleDependencyOn (r : Register) (o : ℕ) : Register :=
  { r with handlesWithDependencies := r.handlesWithDependencies.erase o }

/-- `Close`, which removes dependencies, and `delete`. -/
def close (K : Kinds) (r : Register) (o : ℕ) : Register :=
  (K.release o).foldl removeHandleDependencyOn
    { r with closings := r.closings ++ [⟨o, r.depends o⟩] }

def closeAll (K : Kinds) (r : Register) (os : List ℕ) : Register := os.foldl (close K) r

def closed (r : Register) : List ℕ := r.closings.map Closing.obj

/-- Nothing was closed while there was a dependency on it. -/
def Clean (r : Register) : Prop := ∀ c ∈ r.closings, c.dependency = false

end Register

/-! ### The table -/

structure HandleTable extends Register where
  handles : Map ℕ ℕ
  handleCounter : ℕ
  pendingHandleCloses : List ℕ
  added : List ℕ

namespace HandleTable

def initial : HandleTable where
  handlesWithDependencies := []
  closings := []
  handles := .empty
  handleCounter := 0
  pendingHandleCloses := []
  added := []

def nextHandle (s : HandleTable) : ℕ := (s.handleCounter + 1) % 2 ^ 32

def addHandle (s : HandleTable) (o : ℕ) : HandleTable :=
  { s with
    handles := s.handles.set s.nextHandle o
    handleCounter := s.nextHandle
    added := s.added ++ [o] }

def getHandle (s : HandleTable) (h : ℕ) : Option ℕ := s.handles.find h

/-- **The loop over the pending requests**: the handles that remain, the objects to close, and the requests that
are settled. -/
def scanPending (r : Register) : List ℕ → Map ℕ ℕ → Map ℕ ℕ × List ℕ × List ℕ
  | [], m => (m, [], [])
  | h :: hs, m =>
      match m.find h with
      | none => scanPending r hs m
      | some o =>
          if r.depends o then scanPending r hs m
          else
            let rest := scanPending r hs (m.erase h)
            (rest.1, o :: rest.2.1, h :: rest.2.2)

/-- **`CloseAndRemoveHandle`**. -/
def closeAndRemoveHandle (K : Kinds) (s : HandleTable) (h : ℕ) : HandleTable :=
  match s.handles.find h with
  | none => s
  | some o =>
      if s.depends o then { s with pendingHandleCloses := s.pendingHandleCloses ++ [h] }
      else
        let scan := scanPending s.toRegister s.pendingHandleCloses (s.handles.erase h)
        { s with
          toRegister := s.toRegister.closeAll K (o :: scan.2.1)
          handles := scan.1
          pendingHandleCloses := scan.2.2.foldl List.erase s.pendingHandleCloses }

end HandleTable

/-! ### Sequences of calls -/

/-- What is asked of a process and of the register.  A dependency is registered on what `GetHandle` gives. -/
inductive Act where
  | addHandle (o : ℕ)
  | closeAndRemoveHandle (h : ℕ)
  | addHandleDependencyOn (h : ℕ)
  | removeHandleDependencyOn (o : ℕ)
  deriving DecidableEq, Repr

/-- **One call.**  An object is added once, by whoever has made it. -/
def step (K : Kinds) (s : HandleTable) : Act → Option HandleTable
  | .addHandle o => if o ∈ s.added then none else some (s.addHandle o)
  | .closeAndRemoveHandle h => some (s.closeAndRemoveHandle K h)
  | .addHandleDependencyOn h =>
      match s.getHandle h with
      | none => none
      | some o => some { s with toRegister := s.toRegister.addHandleDependencyOn o }
  | .removeHandleDependencyOn o => some { s with toRegister := s.toRegister.removeHandleDependencyOn o }

/-! ### Cleanup -/

/-- The first loop of `CleanupProcess`: the handles of threads are closed, and their pointers set to null. -/
def closeThreads (K : Kinds) : List (Option ℕ) → Register → List (Option ℕ) × Register
  | [], r => ([], r)
  | none :: l, r => ((closeThreads K l r).1.cons none, (closeThreads K l r).2)
  | some o :: l, r =>
      if K.isThread o then
        ((closeThreads K l (r.close K o)).1.cons none, (closeThreads K l (r.close K o)).2)
      else ((closeThreads K l r).1.cons (some o), (closeThreads K l r).2)

/-- The pointers that a round leaves: those of handles with a dependency. -/
def remaining (r : Register) (slots : List (Option ℕ)) : List (Option ℕ) :=
  slots.map fun p => p.filter r.depends

def handlesToClose (r : Register) (slots : List (Option ℕ)) : List ℕ :=
  (slots.filterMap id).filter fun o => !r.depends o

/-- **The rounds of `CleanupProcess`.**  `others` says which dependencies others remove while the lock is
released, round by round; there is no result if that is not known for as many rounds as it takes. -/
def closeRounds (K : Kinds) : List (List ℕ) → List (Option ℕ) → Register → Option Register
  | [], _, _ => none
  | env :: others, slots, r =>
      let r' := env.foldl Register.removeHandleDependencyOn (r.closeAll K (handlesToClose r slots))
      let slots' := remaining r slots
      if slots'.any Option.isSome then closeRounds K others slots' r' else some r'

/-- **`CleanupProcess`**, as far as the handles go.  `joining` are the dependencies that are removed while the
threads of the process are joined. -/
def cleanupProcess (K : Kinds) (s : HandleTable) (joining : List ℕ) (others : List (List ℕ)) :
    Option Register :=
  let threads := closeThreads K (s.handles.items.map fun e => some e.2) s.toRegister
  closeRounds K others threads.1 (joining.foldl Register.removeHandleDependencyOn threads.2)

end Btos.Kernel.Processes.Handles
