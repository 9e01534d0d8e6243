import Btos.Lib.Loop
import Btos.Kernel.Mm2.PageDirectory

/-!
# The operations of a page directory

The public functions of `PageDirectory` and `mm2_switch`, as state transformers.  Everything that
maps or unmaps goes through `current_pagedir`, so these operations act on `s.current`; only looking
up and the lists of regions are used on another directory.

* `alloc` searches upwards from a hint (`klowfree`, `ulowfree`) for a run of available pages;
* `freePages` frees what is present, page by page; its address is a 32-bit word and wraps;
* `guardPageAt` on a present page calls `free_pages` under the lock that `free_pages` takes: with
  the scheduler running that does not return;
* `mm2Switch` copies the kernel half of the directory words, not the caches.

`none` is a kernel that does not return.
-/

namespace Btos.Kernel.Mm2

open Lib.Word Lib.Loop

/-! ### Mapping -/

/-- `memset(addr, 0, MM2_Page_Size)` through the current directory; a page that is not present is a
fault in the kernel. -/
def clearPage (s : State) (addr : ℕ) : Option State :=
  let e := storedEntry s s.current (addr / pageSize)
  if present e then some (s.zeroFrame (addressOf e)) else none

/-- The counter of the half that `addr` is in is changed; the boundary itself counts as kernel. -/
def State.count (s : State) (addr : ℕ) (f : ℕ → ℕ) : State :=
  if addr > kernelBoundary then
    s.setDir s.current { s.dirs s.current with upages := f (s.dirs s.current).upages }
  else { s with kpages := f s.kpages }

def mapPageAt (s : State) (addr page flags : ℕ) : Option State :=
  (setTableEntry s s.current (addr / pageSize) (page ||| flags)).map fun s =>
    s.count addr (add32 · 1)

/-- `map_page_at(addr, flags)`: a page of its own, cleared. -/
def mapNewPageAt (s : State) (addr flags : ℕ) : Option State :=
  (physicalAlloc s.physical).bind fun r =>
    (mapPageAt { s with physical := r.2 } (addressOf addr) r.1 flags).bind fun s =>
      clearPage s (addressOf addr)

/-- `Present | Writable | Usermode`. -/
def userFlags : ℕ := PageFlag.present ||| PageFlag.writable ||| PageFlag.usermode

/-- The flags of `alloc_pages_at`. -/
def pagesAtFlags (baseaddr : ℕ) : ℕ :=
  if baseaddr ≥ kernelBoundary then userFlags else PageFlag.present ||| PageFlag.writable

/-- Address of the `i`-th page from `addr`, as a 32-bit word. -/
def pageAddr (addr i : ℕ) : ℕ := add32 addr (mul32 i pageSize)

def allocPagesAt (s : State) (pages baseaddr : ℕ) : Option State :=
  turns (fun i s => mapNewPageAt s (pageAddr baseaddr i) (pagesAtFlags baseaddr)) pages s

/-! ### Allocating -/

/-- The modes of `alloc` that are told apart; `Userhigh` is not implemented. -/
inductive AllocMode where
  | kernel | userlow | userhigh
  deriving DecidableEq, Repr

def allocHint (s : State) : AllocMode → ℕ
  | .kernel => (s.dirs s.current).klowfree
  | _ => (s.dirs s.current).ulowfree

/-- The hint after the search for one page met the page `pageno` in use. -/
def raiseHint (s : State) (pages pageno : ℕ) (mode : AllocMode) : State :=
  if pages = 1 then
    match mode with
    | .kernel => s.setDir s.current { s.dirs s.current with klowfree := pageno }
    | .userlow => s.setDir s.current { s.dirs s.current with ulowfree := pageno }
    | .userhigh => s
  else s

/-- The search of `alloc`, `fuel` pages from `pageno` on; `found` pages from `firstpage` on are
available.  The result is the first page of the run, 0 if there is none. -/
def allocSearch (pages : ℕ) (mode : AllocMode) : ℕ → ℕ → ℕ → ℕ → State → ℕ × State
  | 0, _, _, _, s => (0, s)
  | fuel + 1, pageno, found, firstpage, s =>
      let r := isAvailable s s.current pageno
      if r.1 then
        let firstpage := if firstpage = 0 then pageno else firstpage
        if found + 1 = pages then (firstpage, r.2)
        else allocSearch pages mode fuel (pageno + 1) (found + 1) firstpage r.2
      else
        let s := raiseHint r.2 pages pageno mode
        if 0 = pages then (0, s) else allocSearch pages mode fuel (pageno + 1) 0 0 s

/-- `alloc`: the address, 0 if there are not enough pages. -/
def alloc (s : State) (pages : ℕ) (mode : AllocMode) : Option (ℕ × State) :=
  if mode = .userhigh then none
  else
    let start := allocHint s mode
    let r := allocSearch pages mode (totalPages - start) start 0 0 s
    if r.1 = 0 then some (0, r.2)
    else
      let addr := r.1 * pageSize
      (turns (fun i s => mapNewPageAt s (pageAddr addr i) userFlags) pages r.2).map fun s => (addr, s)

/-! ### Freeing and guarding -/

/-- The hint of the half of `pageno` is lowered to it. -/
def lowerHint (s : State) (pageno : ℕ) : State :=
  let x := s.dirs s.current
  if pageno < kernelPages ∧ pageno < x.klowfree then s.setDir s.current { x with klowfree := pageno }
  else if pageno ≥ kernelPages ∧ pageno < x.ulowfree then
    s.setDir s.current { x with ulowfree := pageno }
  else s

def releaseEntry (s : State) (entry : ℕ) : State :=
  if present entry then { s with physical := physicalFree s.physical (addressOf entry) } else s

/-- One turn of `free_pages`. -/
def freeTurn (addr i : ℕ) (s : State) : Option State :=
  let pageaddr := pageAddr addr i
  let s := lowerHint s (pageaddr / pageSize)
  let r := getTableEntry s s.current (pageaddr / pageSize)
  (setTableEntry (releaseEntry r.2 r.1) s.current (pageaddr / pageSize) 0).map fun s =>
    s.count pageaddr (sub32 · 1)

def freePages (s : State) (addr pages : ℕ) : Option State := turns (freeTurn addr) pages s

def guardPageAt (s : State) (ptr : ℕ) : Option State :=
  let pageno := ptr / pageSize
  let r := getTableEntry s s.current pageno
  if present r.1 then
    if s.schedulerReady then none
    else
      (freePages r.2 ptr 1).bind fun s =>
        let r := getTableEntry s s.current pageno
        setTableEntry r.2 s.current pageno (r.1 ||| PageFlag.guardPage)
  else setTableEntry r.2 s.current pageno (r.1 ||| PageFlag.guardPage)

/-! ### Directories -/

/-- `copy_kernelspace`: the words of the kernel half and the hint for it. -/
def copyKernelspace (s : State) (dst src : Pid) : State :=
  s.setDir dst { s.dirs dst with
    directory := fun t => if t < kernelTables then s.tableWord src t else s.tableWord dst t
    klowfree := (s.dirs src).klowfree }

/-- `kernel_pagedir` is the directory of process 0. -/
def kernelPid : Pid := 0

def mm2Switch (s : State) (newdir : Pid) : State :=
  if newdir = s.current then s
  else { copyKernelspace (copyKernelspace s kernelPid s.current) newdir kernelPid with
    current := newdir }

/-- `SwitchProcess`: whether there is such a process, and the switch to its directory. -/
def switchProcess (s : State) (pid : Pid) : Bool × State :=
  if s.live pid then (true, mm2Switch s pid) else (false, s)

/-- A directory as the constructor `PageDirectory()` leaves it.  It sets the `entry` of each element
of the cache; what `index` and `hits` hold is what was in the memory of the object (`rest`). -/
def PageDirectory.new (ptr physical : ℕ) (rest : List (ℕ × ℕ)) : PageDirectory where
  directory _ := 0
  directoryPtr := ptr
  directoryPhysical := physical
  currentTable := 0
  klowfree := 0
  ulowfree := kernelPages
  upages := 0
  entrycache := rest.map fun c => ⟨c.1, 0, c.2⟩
  regions := []

def addDirectory (s : State) (pid : Pid) (x : PageDirectory) : State :=
  { s.setDir pid x with live := Function.update s.live pid true }

/-- The constructor `PageDirectory()`, for a new process `pid`. -/
def newDirectory (s : State) (pid : Pid) (rest : List (ℕ × ℕ)) : Option State :=
  if s.live pid then none
  else
    (alloc s 1 .kernel).bind fun r =>
      if r.1 = 0 then none
      else
        let p := virt2phys r.2 r.2.current r.1
        some (addDirectory p.2 pid (.new r.1 p.1 rest))

/-- One entry of a table that is torn down, through the window. -/
def destroyEntry (j : ℕ) (s : State) : State :=
  let e := s.frames s.window j
  if present e then
    { s.writeWord s.window j 0 with physical := physicalFree s.physical (addressOf e) }
  else s

def destroyEntries (s : State) : ℕ → State
  | 0 => s
  | n + 1 => destroyEntry n (destroyEntries s n)

/-- The turn of `~PageDirectory` for table `i`. -/
def destroyTable (d : Pid) (i : ℕ) (s : State) : State :=
  let word := s.tableWord d i
  let r := mapTable s d word
  if r.1 then
    let s := destroyEntries r.2 1024
    { s.setDir d { s.dirs d with directory := Function.update (s.dirs d).directory i 0 } with
      physical := physicalFree s.physical (addressOf word) }
  else r.2

def destroyTables (s : State) (d : Pid) : ℕ → State
  | 0 => s
  | n + 1 => destroyTable d (kernelTables + n) (destroyTables s d n)

/-- `~PageDirectory`.  The kernel's directory is not an object that can be deleted. -/
def destroyDirectory (s : State) (d : Pid) : Option State :=
  if d = s.current ∨ d = kernelPid ∨ s.live d = false then none
  else
    let s := destroyTables s d (1024 - kernelTables)
    freePages { s with live := Function.update s.live d false } (s.dirs d).directoryPtr 1

/-! ### Regions -/

def addRegion (s : State) (d : Pid) (r : Region) : State :=
  s.setDir d { s.dirs d with regions := (s.dirs d).regions ++ [r] }

/-- `remove_region`: the first region with that address. -/
def removeRegion (s : State) (d : Pid) (addr : ℕ) : State :=
  s.setDir d { s.dirs d with regions := (s.dirs d).regions.eraseP fun r => r.addr == addr }

/-- The test of `handle_pf`; the end of the region is a 32-bit word. -/
def Region.covers (r : Region) (addr : ℕ) : Bool :=
  decide (r.addr ≤ addr) && decide (add32 r.addr r.size > addr)

end Btos.Kernel.Mm2
