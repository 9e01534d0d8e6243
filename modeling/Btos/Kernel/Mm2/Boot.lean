import Btos.Kernel.Mm2.Switch

/-!
# The memory manager after its initialisation

`mm2_virtual_init` maps the memory up to the end of the kernel to itself, from page 1 on, puts a
guard page at address 0 and shows every table in the window once to count the pages.  The state is written
down as it is afterwards, for any memory that `BootInfo` allows; the loops of `idmap_page` are left out.

* `boot_tables` — **its page tables are sound**.
-/

namespace Btos.Kernel.Mm2

open Lib.Word List

/-- The machine and the image.  `tables` are the pages that `mm2_init_page_alloc` gave for the page
tables, `idmapPages` is `pages_to_idmap`; `tableFrame` and `pagedir` are the page of `table_frame` and
the address of `init_kernel_pagedir` in the image. -/
structure BootInfo where
  tables : List ℕ
  idmapPages : ℕ
  tableFrame : ℕ
  pagedir : ℕ
  physical : Physical
  shmAllowed : Pid → Pid → Bool
  nodup : tables.Nodup
  length_le : tables.length ≤ kernelTables
  aligned : ∀ a ∈ tables, a % 4096 = 0
  inImage : ∀ a ∈ tables, 0 < a ∧ a < idmapPages * 4096
  idmap_le : idmapPages ≤ 1024 * tables.length
  frame_pos : 0 < tableFrame
  frame_lt : tableFrame < idmapPages
  marked : ∀ p, 0 < p → p < idmapPages → ¬IsFree physical (p * 4096)

namespace BootInfo

variable (b : BootInfo)

/-- The directory of the kernel: one word for each table. -/
def directory (t : ℕ) : ℕ :=
  match b.tables[t]? with
  | some a => a ||| (PageFlag.present ||| PageFlag.writable)
  | none => 0

def lastTable : ℕ := b.tables.getLast?.getD 0

def entry (page : ℕ) : ℕ :=
  if page = b.tableFrame then b.lastTable ||| (PageFlag.present ||| PageFlag.writable)
  else if page = 0 then PageFlag.guardPage
  else if page < b.idmapPages then (page * pageSize) ||| (PageFlag.present ||| PageFlag.writable)
  else 0

/-- Word `j` of the page at `f`, for the page tables. -/
def frames (f j : ℕ) : ℕ :=
  match b.tables.findIdx? (· == f) with
  | some t => if j < 1024 then b.entry (t * 1024 + j) else 0
  | none => 0

def kernelDirectory : PageDirectory where
  directory := b.directory
  directoryPtr := b.pagedir
  directoryPhysical := b.pagedir
  currentTable := b.lastTable
  klowfree := 0
  ulowfree := kernelPages
  upages := 0
  entrycache := List.replicate 64 ⟨0, 0, 0⟩
  regions := []

end BootInfo

/-- The state after `mm2_virtual_init`.  There is only the kernel's process. -/
def boot (b : BootInfo) : State where
  frames := b.frames
  physical := b.physical
  dirs _ := b.kernelDirectory
  live d := d == kernelPid
  current := kernelPid
  tableFrame := b.tableFrame
  kpages := b.idmapPages - 1
  schedulerReady := false
  spaces := []
  spaceIdCounter := 0
  mappings := []
  mappingIdCounter := 0
  mmappings := []
  shmAllowed := b.shmAllowed

/-! ### Its page tables -/

section

variable {b : BootInfo}

theorem BootInfo.idmapPages_le (b : BootInfo) : b.idmapPages ≤ kernelPages := by
  have h1 := b.idmap_le
  have h2 := b.length_le
  simp only [kernelTables, kernelPages] at *
  omega

theorem BootInfo.table_lt (b : BootInfo) (ha : a ∈ b.tables) : a < 2 ^ 32 := by
  have h1 := (b.inImage a ha).2
  have h2 := b.idmapPages_le
  rw [kernelPages] at h2
  omega

theorem bootFlags : PageFlag.present ||| PageFlag.writable < 4096 := by decide

theorem boot_word (d : Pid) (t : ℕ) (h : (boot b).tableWord d t ≠ 0) :
    ∃ a, b.tables[t]? = some a ∧ a ∈ b.tables ∧
      (boot b).tableWord d t = a ||| (PageFlag.present ||| PageFlag.writable) ∧
      addressOf ((boot b).tableWord d t) = a := by
  have hdef : (boot b).tableWord d t = b.directory t := rfl
  rw [hdef, BootInfo.directory] at h ⊢
  cases hget : b.tables[t]? with
  | none =>
    rw [hget] at h
    exact absurd rfl h
  | some a =>
    have hmem := mem_of_getElem? hget
    exact ⟨a, rfl, hmem, rfl, addressOf_or (b.aligned a hmem) (b.table_lt hmem) bootFlags⟩

theorem boot_findIdx (h : b.tables[t]? = some a) : b.tables.findIdx? (· == a) = some t := by
  obtain ⟨hlt, hget⟩ := List.getElem?_eq_some_iff.1 h
  rw [findIdx?_eq_some_iff_getElem]
  refine ⟨hlt, by rw [hget]; exact beq_self_eq_true a, ?_⟩
  intro j hj heq
  have hjlt : j < b.tables.length := Nat.lt_trans hj hlt
  have hja : b.tables[j] = b.tables[t] := (beq_iff_eq.1 heq).trans hget.symm
  exact pairwise_iff_getElem.1 b.nodup j t hjlt hlt hj hja

theorem boot_frames (d : Pid) (hw : (boot b).tableWord d (idx / 1024) ≠ 0) :
    (boot b).frames (addressOf ((boot b).tableWord d (idx / 1024))) (idx % 1024) = b.entry idx := by
  obtain ⟨a, hget, -, -, haddr⟩ := boot_word d _ hw
  show b.frames _ (idx % 1024) = _
  rw [haddr, BootInfo.frames, boot_findIdx hget]
  simp only
  rw [if_pos (Nat.mod_lt _ (by decide)), Nat.div_add_mod' idx 1024]

theorem boot_stored (d : Pid) (hw : (boot b).tableWord d (idx / 1024) ≠ 0) :
    storedEntry (boot b) d idx = b.entry idx := by
  obtain ⟨a, -, hmem, -, haddr⟩ := boot_word d _ hw
  rw [storedEntry, if_neg, boot_frames d hw]
  rw [haddr]
  exact Nat.ne_of_gt (b.inImage a hmem).1

theorem boot_word_of_lt (d : Pid) (h : idx < b.idmapPages) : (boot b).tableWord d (idx / 1024) ≠ 0 := by
  have hle := b.idmap_le
  have hlt : idx / 1024 < b.tables.length := by omega
  show b.directory (idx / 1024) ≠ 0
  rw [BootInfo.directory, getElem?_eq_getElem hlt]
  refine ne_zero_of_present ?_
  rw [present_or (b.aligned _ (getElem_mem hlt)) bootFlags]
  rfl

theorem BootInfo.lastTable_mem (b : BootInfo) : b.lastTable ∈ b.tables := by
  have hpos := b.frame_lt
  have hle := b.idmap_le
  cases hlast : b.tables.getLast? with
  | none =>
    rw [getLast?_eq_none_iff.1 hlast] at hle
    exact absurd hle (by simp only [length_nil]; omega)
  | some a =>
    rw [BootInfo.lastTable, hlast]
    exact mem_of_getLast? hlast

theorem BootInfo.entry_ok (b : BootInfo) : EntryOk (b.entry page) := by
  have hflags := bootFlags
  unfold BootInfo.entry
  split
  · right; left
    rw [present_or (b.aligned _ b.lastTable_mem) hflags]
    rfl
  · split
    · exact .inr (.inr rfl)
    · split
      · right; left
        rw [present_or (show page * pageSize % 4096 = 0 from Nat.mul_mod_left page 4096) hflags]
        rfl
      · exact .inl rfl

/-- **The page tables at boot are sound.** -/
theorem boot_tables (b : BootInfo) : Tables (boot b) := by
  have hF := Nat.lt_of_lt_of_le b.frame_lt b.idmapPages_le
  have hwindow := boot_word_of_lt kernelPid b.frame_lt
  refine ⟨hF, b.frame_pos, rfl, hwindow, ?_, fun _ _ _ _ _ => rfl, ?_, ?_, ?_, ?_, ?_, ?_⟩
  · intro d t _ _ hw
    obtain ⟨a, -, hmem, heq, haddr⟩ := boot_word d t hw
    refine ⟨?_, ?_⟩
    · rw [heq, present_or (b.aligned a hmem) bootFlags]
      rfl
    · rw [haddr]
      exact Nat.ne_of_gt (b.inImage a hmem).1
  · intro d d' t t' hd hd' _ _ hw hw' haddr
    have hdd : d = d' := (beq_iff_eq.1 hd).trans (beq_iff_eq.1 hd').symm
    obtain ⟨a, hget, -, -, ha⟩ := boot_word d t hw
    obtain ⟨a', hget', -, -, ha'⟩ := boot_word d' t' hw'
    have haa : a = a' := ha.symm.trans (haddr.trans ha')
    subst haa
    have hidx := (boot_findIdx hget).symm.trans (boot_findIdx hget')
    exact ⟨Option.some.inj hidx, .inl hdd⟩
  · intro d t _ _ hw
    obtain ⟨a, -, hmem, -, haddr⟩ := boot_word d t hw
    have hal := b.aligned a hmem
    have hin := b.inImage a hmem
    rw [haddr, show a = a / 4096 * 4096 by omega]
    exact b.marked (a / 4096) (by omega) (by omega)
  · intro d idx _ _ _
    by_cases hw : (boot b).tableWord d (idx / 1024) = 0
    · exact .inl (stored_of_no_word hw)
    · rw [boot_stored d hw]
      exact b.entry_ok
  · have hframe := boot_frames kernelPid hwindow
    show present ((boot b).frames (addressOf ((boot b).tableWord kernelPid (b.tableFrame / 1024)))
      (b.tableFrame % 1024)) = true
    rw [hframe, BootInfo.entry, if_pos rfl, present_or (b.aligned _ b.lastTable_mem) bootFlags]
    rfl
  · intro d _ c hc he
    rw [eq_of_mem_replicate hc] at he
    exact absurd rfl he
  · have hpos : (0 : ℕ) < b.idmapPages := Nat.lt_of_le_of_lt (Nat.zero_le _) b.frame_lt
    show storedEntry (boot b) kernelPid 0 ≠ 0
    rw [boot_stored kernelPid (boot_word_of_lt kernelPid hpos), BootInfo.entry,
      if_neg (Nat.ne_of_lt b.frame_pos), if_pos rfl]
    decide

end

/-! ### A small machine -/

/-- Ten pages of RAM, the first three of them taken by the image. -/
def smallPages : List PhysicalPage :=
  [⟨0x1000, .inUse⟩, ⟨0x2000, .inUse⟩, ⟨0x3000, .inUse⟩, ⟨0x4000, .free⟩, ⟨0x5000, .free⟩,
    ⟨0x6000, .free⟩, ⟨0x7000, .free⟩, ⟨0x8000, .free⟩, ⟨0x9000, .free⟩, ⟨0xA000, .free⟩]

/-- The physical memory of the small machine. -/
def smallPhysical : Physical where
  pages := smallPages
  ok := ⟨by decide, by decide, by decide⟩
  ioPages := []
  lastidx := 0
  freePages := 7

/-- One page table at page 1, `table_frame` at page 2 and the directory at page 3. -/
def smallBoot : BootInfo where
  tables := [0x1000]
  idmapPages := 4
  tableFrame := 2
  pagedir := 0x3000
  physical := smallPhysical
  shmAllowed _ _ := true
  nodup := by decide
  length_le := by decide
  aligned := by decide
  inImage := by decide
  idmap_le := by decide
  frame_pos := by decide
  frame_lt := by decide
  marked := by
    intro p hpos hlt
    have hp : p = 1 ∨ p = 2 ∨ p = 3 := by omega
    rcases hp with rfl | rfl | rfl <;> decide

end Btos.Kernel.Mm2
