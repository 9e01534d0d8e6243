import Btos.Kernel.Mm2.Physical

/-!
# Page directories, page tables and the entry cache

`kernel/mm2/pagedirectory.cpp`.  A directory has 1024 words, each 0 or the address of a page table
with flags; a page table is a physical page, read and written as 1024 words of `frames`.  The 256
tables of the kernel half are the same pages in all directories (`copy_kernelspace` copies the words
of the directory, not the tables).

* **The window.**  The kernel reaches a page table by mapping it at the fixed page `table_frame` of
  its own half: `mapTable` stores the table's address in the entry of that page, and `table_frame[j]`
  is then word `j` of the table.  So *every* look at a page table rewrites one entry of the kernel
  half, that of page `tableFrame`.
* **The cache.**  Each directory keeps 64 entries it has read (`entrycache`); `getTableEntry` asks it
  first, `setTableEntry` clears what its *own* directory has for the page.

Operations that do not return (a panic) give `none`.
-/

namespace Btos.Kernel.Mm2

open Lib.Word

/-- `MM2_Kernel_Boundary`, the first address of user space. -/
def kernelBoundary : ℕ := 0x40000000

/-- `MM2_Kernel_Pages` and `MM2_Boundary_Page`: the pages below the boundary. -/
def kernelPages : ℕ := 0x40000

/-- `MM2_Kernel_Tables`. -/
def kernelTables : ℕ := 256

theorem user_page_iff : kernelPages ≤ addr / 4096 ↔ kernelBoundary ≤ addr := by
  rw [kernelPages, kernelBoundary]
  omega

theorem kernel_table_iff : idx / 1024 < kernelTables ↔ idx < kernelPages := by
  rw [kernelTables, kernelPages]
  omega

/-- `MM2_Total_Pages`. -/
def totalPages : ℕ := 0xFFFFF

/-- `MM2_PageFlags`. -/
def PageFlag.present : ℕ := 1

def PageFlag.writable : ℕ := 2

def PageFlag.usermode : ℕ := 4

/-- The page is not given out by `alloc`. -/
def PageFlag.doNotUse : ℕ := 0x200

/-- `Guard_Page`: `Do_Not_Use | Do_Not_Swap`. -/
def PageFlag.guardPage : ℕ := 0xA00

/-- The `Present` bit of an entry. -/
def present (e : ℕ) : Bool := e &&& PageFlag.present != 0

/-! ### The data -/

/-- `entrycache_entry`. -/
structure CacheEntry where
  index : ℕ
  entry : ℕ
  hits : ℕ
  deriving DecidableEq, Repr

/-- The two functions that `region::pf_handle` can point to. -/
inductive PfHandler where
  | shmPfHandler | mmapRead
  deriving DecidableEq, Repr

structure Region where
  addr : ℕ
  size : ℕ
  id : ℕ
  pfHandle : PfHandler
  deriving DecidableEq, Repr

/-- `PageDirectory`.  The words of the directory are a field; `directoryPtr` and `directoryPhysical`
are the virtual and the physical address of the page that holds them. -/
structure PageDirectory where
  directory : ℕ → ℕ
  directoryPtr : ℕ
  directoryPhysical : ℕ
  currentTable : ℕ
  klowfree : ℕ
  ulowfree : ℕ
  upages : ℕ
  entrycache : List CacheEntry
  regions : List Region

/-- Process ids; each process has a page directory, the kernel's is that of process 0. -/
abbrev Pid := ℕ

/-- `shm_space`; `pages` maps offsets in the space to physical pages. -/
structure ShmSpace where
  pages : List (ℕ × ℕ)
  flags : ℕ
  owner : Pid
  deriving DecidableEq, Repr

/-- `shm_mapping`; a space is named by its id. -/
structure ShmMapping where
  space : ℕ
  addr : ℕ
  offset : ℕ
  pages : ℕ
  flags : ℕ
  pid : Pid
  deriving DecidableEq, Repr

/-- `mmapping`, as far as `mmap_read` uses it; `readsPage o` says whether the file can be read for a
whole page from offset `o`. -/
structure MMapping where
  addr : ℕ
  pageAddr : ℕ
  pageOffset : ℕ
  pages : ℕ
  readsPage : ℕ → Bool

/-- The memory manager.  `live` are the existing directories, `current` is `current_pagedir`,
`tableFrame` the page number of `table_frame`; `shmAllowed p o` is the permission check of `shm_map`
for process `p` and a space of process `o`. -/
structure State where
  frames : ℕ → ℕ → ℕ
  physical : Physical
  dirs : Pid → PageDirectory
  live : Pid → Bool
  current : Pid
  tableFrame : ℕ
  kpages : ℕ
  schedulerReady : Bool
  spaces : List (ℕ × ShmSpace)
  spaceIdCounter : ℕ
  mappings : List (ℕ × ShmMapping)
  mappingIdCounter : ℕ
  mmappings : List (ℕ × MMapping)
  shmAllowed : Pid → Pid → Bool

def State.setDir (s : State) (d : Pid) (x : PageDirectory) : State :=
  { s with dirs := Function.update s.dirs d x }

def State.writeWord (s : State) (f j v : ℕ) : State :=
  { s with frames := fun g i => if g = f ∧ i = j then v else s.frames g i }

def State.zeroFrame (s : State) (f : ℕ) : State :=
  { s with frames := fun g i => if g = f then 0 else s.frames g i }

/-- The word of directory `d` for table `t`. -/
def State.tableWord (s : State) (d : Pid) (t : ℕ) : ℕ := (s.dirs d).directory t

/-- The entry that the page tables of directory `d` hold for a page. -/
def storedEntry (s : State) (d : Pid) (idx : ℕ) : ℕ :=
  if addressOf (s.tableWord d (idx / 1024)) = 0 then 0
  else s.frames (addressOf (s.tableWord d (idx / 1024))) (idx % 1024)

/-! ### The entry cache -/

def entrycacheMaxhits : ℕ := 1024

/-- The counter of an entry that is looked up: up by two, and down by one once it is full. -/
def CacheEntry.touch (c : CacheEntry) : CacheEntry :=
  if c.hits < entrycacheMaxhits then
    { c with hits := if c.hits + 1 < entrycacheMaxhits then c.hits + 2 else c.hits + 1 }
  else { c with hits := c.hits - 1 }

/-- `entrycache_get`: the last entry for the page that is not full, 0 if there is none. -/
def entrycacheGet (cache : List CacheEntry) (idx : ℕ) : ℕ × List CacheEntry :=
  if idx = 0 then (0, cache)
  else
    (match (cache.filter fun c => c.index == idx && decide (c.hits < entrycacheMaxhits)).getLast?
      with
      | some c => c.entry
      | none => 0,
    cache.map fun c => if c.index = idx then c.touch else c)

def leastHits : List CacheEntry → ℕ
  | [] => 0
  | [_] => 0
  | c :: rest =>
      let i := leastHits rest
      match rest[i]? with
      | some c' => if c'.hits < c.hits then i + 1 else 0
      | none => 0

def entrycacheSet (cache : List CacheEntry) (idx entry : ℕ) : List CacheEntry :=
  if entry = 0 then cache else cache.set (leastHits cache) ⟨idx, entry, 0⟩

def entrycacheClear (cache : List CacheEntry) (idx : ℕ) : List CacheEntry :=
  cache.map fun c => if c.index = idx then ⟨0, 0, 0⟩ else c

/-- The cache of directory `d` is replaced. -/
def State.setCache (s : State) (d : Pid) (cache : List CacheEntry) : State :=
  s.setDir d { s.dirs d with entrycache := cache }

/-! ### Page tables -/

/-- The page table of the kernel half that holds the entry of the window. -/
def State.windowTable (s : State) (d : Pid) : ℕ := addressOf (s.tableWord d (s.tableFrame / 1024))

/-- The physical page that `table_frame` shows: what the current directory maps there. -/
def State.window (s : State) : ℕ := addressOf (s.frames (s.windowTable s.current) (s.tableFrame % 1024))

/-- The window is set to the page at `tableaddr`, through directory `d`. -/
def State.pointWindow (s : State) (d : Pid) (tableaddr : ℕ) : State :=
  (s.writeWord (s.windowTable d) (s.tableFrame % 1024)
    (tableaddr ||| PageFlag.present ||| PageFlag.writable)).setDir d
      { s.dirs d with currentTable := tableaddr }

def mapTable (s : State) (d : Pid) (tableaddr : ℕ) : Bool × State :=
  if addressOf tableaddr = 0 then (false, s)
  else if present (s.tableWord d (s.tableFrame / 1024)) then
    (true, s.pointWindow d (addressOf tableaddr))
  else (false, s)

def getTableEntry (s : State) (d : Pid) (idx : ℕ) : ℕ × State :=
  let (ret, cache) := entrycacheGet (s.dirs d).entrycache idx
  let s := s.setCache d cache
  if ret ≠ 0 then (ret, s)
  else
    let (ok, s) := mapTable s d (s.tableWord d (idx / 1024))
    let ret := if ok then s.frames s.window (idx % 1024) else 0
    (ret, s.setCache d (entrycacheSet (s.dirs d).entrycache idx ret))

/-- The flags that `create_table` puts into a directory word. -/
def tableFlags (tableno : ℕ) : ℕ :=
  PageFlag.present ||| PageFlag.writable ||| (if tableno ≥ kernelTables then PageFlag.usermode else 0)

/-- `create_table`, first part: the allocated page goes into the directory. -/
def installTable (s : State) (d : Pid) (tableno page : ℕ) (physical : Physical) : State :=
  ({ s with physical := physical } : State).setDir d { s.dirs d with
    directory := Function.update (s.dirs d).directory tableno (page ||| tableFlags tableno) }

/-- `create_table`, second part: the page is cleared through the window, which is then set back to
the table it showed before. -/
def clearTable (s : State) (d : Pid) (page : ℕ) : State :=
  let lastTable := (s.dirs d).currentTable
  let s := (mapTable s d page).2
  let s := s.zeroFrame s.window
  if lastTable ≠ 0 then (mapTable s d lastTable).2 else s

def createTable (s : State) (d : Pid) (tableno : ℕ) : Option State :=
  (physicalAlloc s.physical).map fun r => clearTable (installTable s d tableno r.1 r.2) d r.1

/-- The branch of `set_table_entry` that makes a table: it is shown and cleared once more. -/
def growTable (s : State) (d : Pid) (tableno : ℕ) : Option State :=
  (createTable s d tableno).map fun s =>
    let s := (mapTable s d (s.tableWord d tableno)).2
    s.zeroFrame s.window

/-- The table of a page is shown in the window, made if it is missing.  The test of the directory
word is `directory[tableno] && Present`, so any word but 0 passes it. -/
def showTable (s : State) (d : Pid) (tableno : ℕ) : Option State :=
  let r := mapTable s d (s.tableWord d tableno)
  if s.tableWord d tableno ≠ 0 ∧ r.1 = true then some r.2 else growTable s d tableno

/-- `table_frame[pageno] = entry`, and the cache forgets the page. -/
def storeEntry (s : State) (d : Pid) (idx entry : ℕ) : State :=
  let s := s.writeWord s.window (idx % 1024) entry
  s.setCache d (entrycacheClear (s.dirs d).entrycache idx)

def setTableEntry (s : State) (d : Pid) (idx entry : ℕ) : Option State :=
  (showTable s d (idx / 1024)).map fun s => storeEntry s d idx entry

def virt2phys (s : State) (d : Pid) (addr : ℕ) : ℕ × State :=
  let (entry, s) := getTableEntry s d (addr / pageSize)
  (if addressOf entry = 0 then 0 else addressOf entry + addr % pageSize, s)

def isMapped (s : State) (d : Pid) (addr : ℕ) : Bool × State :=
  let (phys, s) := virt2phys s d addr
  (phys != 0, s)

def isAvailable (s : State) (d : Pid) (pageno : ℕ) : Bool × State :=
  let (entry, s) := getTableEntry s d pageno
  (!present entry && entry &&& PageFlag.doNotUse == 0, s)

end Btos.Kernel.Mm2
