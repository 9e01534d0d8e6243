import Btos.Kernel.Mm2.Operations

/-!
# Shared memory, page faults and the memory system calls

`kernel/mm2/shm.cpp`, `mmap_read`, `page_faults.cpp` and the handlers of `kernel/user_api.cpp` that
work on memory.

* A **space** owns pages, by offset; it takes a page when an offset is first touched.  A **mapping**
  shows a part of a space in a process: its pages are guard pages and a region of the process's
  directory until they are touched.

A mapping whose space is gone is a pointer to freed memory, and what follows from using it is open;
the model gives `none` there, as it does where the kernel panics.
-/

namespace Btos.Kernel.Mm2

open Lib.Word Lib.Loop

/-! ### Page faults -/

/-- The space `id` gets a page at an offset. -/
def addSpacePage (s : State) (id offset page : ℕ) : State :=
  { s with spaces := s.spaces.map fun p =>
      if p.1 = id then (p.1, { p.2 with pages := p.2.pages ++ [(offset, page)] }) else p }

/-- The offset in its space of an address in a mapping, as `shm_pf_handler` computes it. -/
def ShmMapping.pageOffset (m : ShmMapping) (addr : ℕ) : ℕ := addressOf (add32 (sub32 addr m.addr) m.offset)

def shmPfHandler (s : State) (id addr : ℕ) : Option State :=
  (s.mappings.lookup id).bind fun m =>
    (s.spaces.lookup m.space).bind fun space =>
      match space.pages.lookup (m.pageOffset addr) with
      | some page => mapPageAt s (addressOf addr) page userFlags
      | none =>
          (physicalAlloc s.physical).bind fun r =>
            mapPageAt (addSpacePage { s with physical := r.2 } m.space (m.pageOffset addr) r.1)
              (addressOf addr) r.1 userFlags

/-- `mmap_read`; the data that is read is left out. -/
def mmapRead (s : State) (id addr : ℕ) : Option State :=
  (s.mmappings.lookup id).bind fun m =>
    if addr < m.pageAddr ∨ addr > add32 m.pageAddr (mul32 m.pages pageSize) then none
    else if m.readsPage (sub32 (addressOf addr) m.pageAddr + m.pageOffset) then
      mapNewPageAt s (addressOf addr) (pagesAtFlags m.addr)
    else none

/-- The call of `pf_handle`. -/
def Region.handle (r : Region) (s : State) (addr : ℕ) : Option State :=
  match r.pfHandle with
  | .shmPfHandler => shmPfHandler s r.id addr
  | .mmapRead => mmapRead s r.id addr

def handlePf (s : State) (d : Pid) (addr : ℕ) : Option (Bool × State) :=
  let r := isMapped s d addr
  if r.1 then some (false, r.2)
  else
    match (r.2.dirs d).regions.find? (·.covers addr) with
    | none => some (false, r.2)
    | some region => (region.handle r.2 addr).map fun s => (true, s)

/-- `page_fault_handler` for a fault at `addr`, in user code or in the kernel.  A process with a
fault that no region handles is terminated, which changes nothing here. -/
def pageFault (s : State) (addr : ℕ) (user : Bool) : Option State :=
  (handlePf (virt2phys s s.current addr).2 s.current addr).bind fun r =>
    if r.1 then some r.2
    else
      (handlePf r.2 kernelPid addr).bind fun r =>
        if r.1 ∨ user then some r.2 else none

/-! ### Spaces and mappings -/

/-- `shm_create`: the id and the state. -/
def shmCreate (s : State) (flags : ℕ) : ℕ × State :=
  let id := add64 s.spaceIdCounter 1
  (id, { s with
    spaceIdCounter := id
    spaces := s.spaces.filter (fun p => p.1 != id) ++ [(id, ⟨[], flags, s.current⟩)] })

/-- The turns of a loop over the pages from `addr` to `addr + pages * MM2_Page_Size`, both 32-bit
words. -/
def rangeTurns (addr pages : ℕ) : ℕ := (add32 addr (mul32 pages pageSize) - addr + (pageSize - 1)) / pageSize

/-- The checks of `shm_map`. -/
def shmMapChecks (s : State) (id addr offset : ℕ) : Bool :=
  match s.spaces.lookup id with
  | none => false
  | some space => addr % pageSize == 0 && offset % pageSize == 0 &&
      s.shmAllowed s.current space.owner

/-- The second part of `shm_map`: the region and the mapping. -/
def shmRecord (s : State) (id addr offset pages : ℕ) : State :=
  let mid := add64 s.mappingIdCounter 1
  let s := addRegion s s.current ⟨addr, mul32 pages pageSize, mid, .shmPfHandler⟩
  { s with
    mappingIdCounter := mid
    mappings := s.mappings.filter (fun p => p.1 != mid) ++ [(mid, ⟨id, addr, offset, pages, 0, s.current⟩)] }

/-- `shm_map`: the id of the mapping, 0 if a check fails.  `flags` is not used, and the field of the
mapping stays 0. -/
def shmMap (s : State) (id addr offset pages _flags : ℕ) : Option (ℕ × State) :=
  if shmMapChecks s id addr offset then
    (freePages s addr pages).bind fun s =>
      (turns (fun i s => guardPageAt s (addr + i * pageSize)) (rangeTurns addr pages) s).map fun s =>
        (add64 s.mappingIdCounter 1, shmRecord s id addr offset pages)
  else some (0, s)

def shmCloseMap (s : State) (id : ℕ) : Option State :=
  match s.mappings.lookup id with
  | none => some s
  | some m =>
      if s.live m.pid then
        let pid := s.current
        let s := mm2Switch s m.pid
        let s := removeRegion s s.current m.addr
        (turns (fun i s => mapNewPageAt s (m.addr + i * pageSize) userFlags)
          (rangeTurns m.addr m.pages) s).bind fun s =>
            if s.live pid then
              some (mm2Switch { s with mappings := s.mappings.filter fun p => p.1 != id } pid)
            else none
      else none

def shmClose (s : State) (id : ℕ) : Option State :=
  (s.spaces.lookup id).bind fun _ =>
    ((match s.mappings.find? fun p => p.2.space == id with
      | none => some s
      | some p => shmCloseMap s p.1) : Option State).bind fun s =>
        (s.spaces.lookup id).map fun space =>
          { s with
            physical := space.pages.foldl (fun ph p => physicalFreePage ph p.2) s.physical
            spaces := s.spaces.filter fun p => p.1 != id }

/-! ### The pointer check -/

def resolveAddr (s : State) (addr : ℕ) : Option (ℕ × State) :=
  (handlePf s s.current addr).map fun r =>
    let p := virt2phys r.2 r.2.current addr
    (if p.1 = 0 then 0 else if p.1 % pageSize = 0 then pageSize else p.1 % pageSize, p.2)

/-- The `while` of `is_safe_ptr`, at most `fuel` turns. -/
def safeLoop (ptr size : ℕ) : ℕ → ℕ → State → Option (Bool × State)
  | 0, _, _ => none
  | fuel + 1, i, s =>
      if i < size then
        (resolveAddr s (add32 ptr i)).bind fun r =>
          if r.1 = 0 then some (false, r.2) else safeLoop ptr size fuel (add32 i r.1) r.2
      else some (true, s)

/-- `is_safe_ptr`.  An index comes twice only in a loop that does not end. -/
def isSafePtr (s : State) (ptr size : ℕ) (pid : Pid) : Option (Bool × State) :=
  if ptr ≥ kernelBoundary then
    (safeLoop ptr size (2 ^ 32 + 1) 0 (switchProcess s pid).2).map fun r =>
      (r.1, (switchProcess r.2 s.current).2)
  else some (false, s)

/-! ### System calls -/

/-- `BT_ALLOC_PAGES`, register B. -/
def btAllocPages (s : State) (b : ℕ) : Option State := (alloc s b .userlow).map Prod.snd

/-- The loop of `BT_ALLOC_AT`: it returns at the first address below the boundary. -/
def allocAtLoop (addr pages : ℕ) : ℕ → State → Option State
  | 0, s => some s
  | n + 1, s =>
      let pageaddr := pageAddr addr (pages - (n + 1))
      if pageaddr < kernelBoundary then some s
      else (allocPagesAt s 1 pageaddr).bind fun s => allocAtLoop addr pages n s

/-- `BT_ALLOC_AT`, registers B and C.  The first test is `addr % MM2_Address_Mask`. -/
def btAllocAt (s : State) (b c : ℕ) : Option State :=
  if c ≠ c % 0xFFFFF000 ∨ c < kernelBoundary then some s else allocAtLoop c b b s

/-- `BT_FREE_PAGES`, registers B and C; a process with a bad pointer is terminated. -/
def btFreePages (s : State) (b c : ℕ) : Option State :=
  (isSafePtr s b 0 s.current).bind fun r => if r.1 then freePages r.2 b c else some r.2

/-- `bt_shm_mapping`, the structure that a process passes. -/
structure BtShmMapping where
  id : Word64
  addr : Word32
  offset : Word32
  pages : Word32
  flags : Word32
  deriving DecidableEq, Repr

/-- `BT_SHM_MAP`, register B with the structure it points to.  The first check is for the size of a
pointer. -/
def btShmMap (s : State) (b : ℕ) (mapping : BtShmMapping) : Option State :=
  (isSafePtr s b 4 s.current).bind fun r =>
    if r.1 then
      (isSafePtr r.2 mapping.addr (mul32 mapping.pages pageSize) r.2.current).bind fun r =>
        if r.1 then
          (shmMap r.2 mapping.id mapping.addr mapping.offset mapping.pages mapping.flags).map Prod.snd
        else some r.2
    else some r.2

end Btos.Kernel.Mm2
