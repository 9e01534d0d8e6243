import Btos.Kernel.Mm2.Frames

/-!
# Mapped files

`kernel/mm2/mm2_mmap.cpp` with the data: what the pages and the files hold.  Of the page directories this
model has the pages that are mapped and what is in them (the page tables are in `PageDirectory`), and the
regions; a page of the kernel half is one page for all processes.

* `touch`, `readByte`, `writeByte` — **accesses to memory**, with the page fault that a page which is not
  mapped gives.

Where the kernel panics, or waits for a lock that it holds, the result is `none`.  So it is for a fault in
shared memory, whose pages are not part of this model.  The flags of the pages are left out.
-/

namespace Btos.Kernel.Mm2.Mmap

open Lib.Word Lib.Loop Function

abbrev Byte := UInt8

/-! ### Files -/

/-- `IFileHandle`: the bytes and the size of the file, the position, and whether `GetMode` has
`FS_Write`. -/
structure FileHandle where
  byteAt : ℕ → Byte
  size : ℕ
  pos : ℕ
  writable : Bool
  pos_le : pos ≤ size

namespace FileHandle

/-- `Seek` with `FS_Set`; a position beyond the end is the end. -/
def seek (f : FileHandle) (p : ℕ) : FileHandle :=
  { f with pos := min p f.size, pos_le := Nat.min_le_right _ _ }

/-- The number of bytes that `Read` gets. -/
def readCount (f : FileHandle) (n : ℕ) : ℕ := min n (f.size - f.pos)

/-- `Read`: the bytes. -/
def read (f : FileHandle) (n : ℕ) : List Byte := (List.range (f.readCount n)).map fun i => f.byteAt (f.pos + i)

/-- `Read`: the handle. -/
def afterRead (f : FileHandle) (n : ℕ) : FileHandle :=
  { f with
    pos := f.pos + f.readCount n
    pos_le := by
      have := f.pos_le
      have := Nat.min_le_right n (f.size - f.pos)
      unfold readCount
      omega }

/-- `Write`; the file grows if need be. -/
def write (f : FileHandle) (bytes : List Byte) : FileHandle :=
  { f with
    byteAt := fun i =>
      if f.pos ≤ i ∧ i < f.pos + bytes.length then bytes.getD (i - f.pos) 0 else f.byteAt i
    size := max f.size (f.pos + bytes.length)
    pos := f.pos + bytes.length
    pos_le := Nat.le_max_right _ _ }

end FileHandle

/-! ### Memory -/

/-- What is at a page: nothing, a guard page, or a page with its bytes. -/
inductive PageState where
  | empty
  | guard
  | mapped (bytes : ℕ → Byte)

/-- `mmapping`; `file` names the handle. -/
structure Mmapping where
  addr : ℕ
  file : ℕ
  offset : ℕ
  size : ℕ
  pre : ℕ
  post : ℕ
  pageOffset : ℕ
  pageAddr : ℕ
  pages : ℕ
  pid : Pid
  deriving DecidableEq, Repr

/-- The memory manager and the open files.  `freePages` is the number of free physical pages. -/
structure World where
  pages : Slot → PageState
  freePages : ℕ
  regions : Pid → List Region
  live : Pid → Bool
  current : Pid
  files : ℕ → FileHandle
  mmappings : List (ℕ × Mmapping)
  counter : ℕ

namespace World

def setPage (w : World) (d : Pid) (addr : ℕ) (p : PageState) : World :=
  { w with pages := update w.pages (slot d (addr / pageSize)) p }

def setFile (w : World) (h : ℕ) (f : FileHandle) : World :=
  { w with files := update w.files h f }

/-- `Seek` on a handle. -/
def seek (w : World) (h p : ℕ) : World := w.setFile h ((w.files h).seek p)

/-- The byte at an address, if its page is mapped. -/
def byteAt (w : World) (d : Pid) (a : ℕ) : Option Byte :=
  match w.pages (slot d (a / pageSize)) with
  | .mapped bytes => some (bytes (a % pageSize))
  | _ => none

end World

def isMapped (w : World) (d : Pid) (addr : ℕ) : Bool := (w.byteAt d addr).isSome

/-- `map_page_at` with a new page, which is filled with zeros. -/
def mapPageAt (w : World) (addr : ℕ) : Option World :=
  if w.freePages = 0 then none
  else some { w.setPage w.current addr (.mapped fun _ => 0) with freePages := w.freePages - 1 }

/-- One page of `free_pages`. -/
def freePage (w : World) (addr : ℕ) : World :=
  { w.setPage w.current addr .empty with
    freePages := if isMapped w w.current addr then w.freePages + 1 else w.freePages }

def freePages (w : World) (addr : ℕ) : ℕ → World
  | 0 => w
  | n + 1 => freePage (freePages w addr n) (Mm2.pageAddr addr n)

/-- `guard_page_at`; on a page that is mapped it would wait for its own lock. -/
def guardPageAt (w : World) (addr : ℕ) : Option World :=
  if isMapped w w.current addr then none else some (w.setPage w.current addr .guard)

def addRegion (w : World) (d : Pid) (r : Region) : World :=
  { w with regions := update w.regions d (w.regions d ++ [r]) }

/-- `remove_region`: the first one with the address. -/
def removeRegion (w : World) (d : Pid) (addr : ℕ) : World :=
  { w with regions := update w.regions d ((w.regions d).eraseP fun r => r.addr == addr) }

/-- `SwitchProcess`; the callers panic if it fails. -/
def switchProcess (w : World) (pid : Pid) : Option World :=
  if w.live pid then some { w with current := pid } else none

/-! ### Page faults -/

/-- `mmap_read`: a new page gets a page of the file. -/
def mmapRead (w : World) (id addr : ℕ) : Option World :=
  (w.mmappings.lookup id).bind fun m =>
    let pos := (w.files m.file).pos
    if addr < m.pageAddr ∨ addr > add32 m.pageAddr (mul32 m.pages pageSize) then none
    else
      let pageaddr := addressOf addr
      let readofs := sub32 pageaddr m.pageAddr + m.pageOffset
      let f := (w.files m.file).seek readofs
      let bytes := f.read pageSize
      (mapPageAt w pageaddr).bind fun w =>
        if f.pos ≠ readofs ∨ bytes.length ≠ pageSize then none
        else some ((w.setPage w.current pageaddr (.mapped fun i => bytes.getD i 0)).setFile m.file
          ((f.afterRead pageSize).seek pos))

def handlePf (w : World) (d : Pid) (addr : ℕ) : Option (Bool × World) :=
  if isMapped w d addr then some (false, w)
  else
    match (w.regions d).find? (·.covers addr) with
    | none => some (false, w)
    | some r =>
        match r.pfHandle with
        | .mmapRead => (mmapRead w r.id addr).map fun w => (true, w)
        | .shmPfHandler => none

/-- `page_fault_handler`; a fault that no region handles ends the process or the kernel. -/
def pageFault (w : World) (addr : ℕ) : Option World :=
  (handlePf w w.current addr).bind fun r =>
    if r.1 then some r.2
    else (handlePf r.2 kernelPid addr).bind fun r => if r.1 then some r.2 else none

/-- An access to an address: a page fault if its page is not mapped. -/
def touch (w : World) (addr : ℕ) : Option World :=
  if isMapped w w.current addr then some w else pageFault w addr

def readByte (w : World) (addr : ℕ) : Option (Byte × World) :=
  (touch w addr).bind fun w => (w.byteAt w.current addr).map fun b => (b, w)

def writeByte (w : World) (addr : ℕ) (b : Byte) : Option World :=
  (touch w addr).bind fun w =>
    match w.pages (slot w.current (addr / pageSize)) with
    | .mapped bytes =>
        some (w.setPage w.current addr (.mapped (update bytes (addr % pageSize) b)))
    | _ => none

/-- Bytes are read from memory, one after the other. -/
def readBytes (w : World) (addr n : ℕ) : Option (List Byte × World) :=
  turns (fun i r => (readByte r.2 (add32 addr i)).map fun q => (r.1 ++ [q.1], q.2)) n ([], w)

def writeBytes (w : World) (addr : ℕ) (bytes : List Byte) : Option World :=
  turns (fun i w => writeByte w (add32 addr i) (bytes.getD i 0)) bytes.length w

/-- `Read` on a handle, to memory at `addr`. -/
def fileRead (w : World) (h n addr : ℕ) : Option World :=
  writeBytes (w.setFile h ((w.files h).afterRead n)) addr ((w.files h).read n)

/-- `Write` on a handle, from memory at `addr`. -/
def fileWrite (w : World) (h n addr : ℕ) : Option World :=
  (readBytes w addr n).map fun r => r.2.setFile h ((r.2.files h).write r.1)

/-! ### Mappings -/

/-- **The split of `mm2_mmap`.**  `size - pre` and the sum for `page_addr` are 32-bit words. -/
def mmapping (ptr file offset size : ℕ) (pid : Pid) : Mmapping :=
  let pageAddr := if ptr % pageSize ≠ 0 then addressOf (add32 ptr pageSize) else ptr
  let pre := if ptr % pageSize ≠ 0 then sub32 pageAddr ptr else 0
  let asize := sub32 size pre
  { addr := ptr
    file := file
    offset := offset
    size := size
    pre := pre
    post := asize - asize / pageSize * pageSize
    pageOffset := offset + pre
    pageAddr := pageAddr
    pages := asize / pageSize
    pid := pid }

def Mmapping.postOffset (m : Mmapping) : ℕ := m.pageOffset + mul32 m.pages pageSize

def Mmapping.postAddr (m : Mmapping) : ℕ := add32 m.pageAddr (mul32 m.pages pageSize)

def doMapping (w : World) (m : Mmapping) : Option World :=
  let pos := (w.files m.file).pos
  if m.size ≤ pageSize then
    (fileRead (w.seek m.file m.offset) m.file m.size m.addr).map fun w => w.seek m.file pos
  else
    (if m.pre ≠ 0 then fileRead (w.seek m.file m.offset) m.file m.pre m.addr else some w).bind fun w =>
      (if m.post ≠ 0 then fileRead (w.seek m.file m.postOffset) m.file m.post m.postAddr
        else some w).bind fun w =>
          (turns (fun i w => guardPageAt w (Mm2.pageAddr m.pageAddr i)) m.pages
            (freePages w m.pageAddr m.pages)).map fun w => w.seek m.file pos

/-- One page in `flush_mapping`. -/
def flushPage (m : Mmapping) (i : ℕ) (w : World) : Option World :=
  let pageaddr := Mm2.pageAddr m.pageAddr i
  (if isMapped w w.current pageaddr then
    (fileWrite (w.seek m.file (m.pageOffset + i * pageSize)) m.file pageSize pageaddr).map fun w =>
      freePages w pageaddr 1
  else some w).bind fun w => guardPageAt w pageaddr

/-- The writes of `flush_mapping`, in the process of the mapping. -/
def flushWrites (w : World) (m : Mmapping) : Option World :=
  if m.size ≤ pageSize then fileWrite (w.seek m.file m.offset) m.file m.size m.addr
  else
    (if m.pre ≠ 0 then fileWrite (w.seek m.file m.offset) m.file m.pre m.addr else some w).bind fun w =>
      (if m.post ≠ 0 then fileWrite (w.seek m.file m.postOffset) m.file m.post m.postAddr
        else some w).bind fun w => turns (flushPage m) m.pages w

def flushMapping (w : World) (m : Mmapping) : Option World :=
  let curpid := w.current
  if (w.files m.file).writable then
    (switchProcess w m.pid).bind fun w =>
      let pos := (w.files m.file).pos
      (flushWrites w m).bind fun w => switchProcess (w.seek m.file pos) curpid
  else some w

/-- The directory that the region of a mapping is in. -/
def Mmapping.regionDir (m : Mmapping) (current : Pid) : Pid :=
  if m.addr < kernelBoundary then kernelPid else current

def Mmapping.region (m : Mmapping) (id : ℕ) : Region := ⟨m.pageAddr, mul32 m.pages pageSize, id, .mmapRead⟩

/-- `mm2_mmap`: the id and the state. -/
def mm2Mmap (w : World) (ptr file offset size : ℕ) : Option (ℕ × World) :=
  let m := mmapping ptr file offset size w.current
  (doMapping w m).map fun w =>
    let id := add64 w.counter 1
    let w := { w with
      counter := id
      mmappings := w.mmappings.filter (fun p => p.1 != id) ++ [(id, m)] }
    (id, if pageSize < size then addRegion w (m.regionDir w.current) (m.region id) else w)

/-- One page in `mm2_closemap`: what is not mapped gets a page of zeros. -/
def restorePage (m : Mmapping) (i : ℕ) (w : World) : Option World :=
  let pageaddr := Mm2.pageAddr m.pageAddr i
  if isMapped w w.current pageaddr then some w else mapPageAt w pageaddr

def mm2Closemap (w : World) (id : ℕ) : Option World :=
  match w.mmappings.lookup id with
  | none => some w
  | some m =>
      let curpid := w.current
      (switchProcess w m.pid).bind fun w =>
        (flushMapping w m).bind fun w =>
          (if pageSize < m.size then
            (turns (restorePage m) m.pages w).map fun w =>
              removeRegion w (m.regionDir w.current) m.pageAddr
          else some w).bind fun w =>
            switchProcess { w with mmappings := w.mmappings.filter fun p => p.1 != id } curpid

end Btos.Kernel.Mm2.Mmap
