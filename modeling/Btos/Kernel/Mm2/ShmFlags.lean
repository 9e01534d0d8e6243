import Btos.Kernel.Mm2.ShmRecords

/-!
# Read-only shared memory

`shm_create` takes flags for a space and `shm_map` flags for a mapping; `ReadOnly` is one of them.
`shm_pf_handler` computes page flags from both, and from who owns the space, and then maps the page with
`Present | Writable | Usermode` whatever it has computed.  The flags of a mapping are not even stored.

* `Shared` — memory, with what was **asked for**: the flags and the owner of each space that was made,
  the flags of each mapping that was made;
* `grantOk_iff` — **a grant respects what was asked for exactly when its fault meets the condition**.
-/

namespace Btos.Kernel.Mm2

open Lib.Word Lib.Lists Function List Option

/-! ### Flags -/

/-- `bt_shm_flags::ReadOnly` is set. -/
def isReadOnly (flags : ℕ) : Bool := flags &&& 1 != 0

/-- `MM2_PageFlags::Writable` is set. -/
def writable (e : ℕ) : Bool := e &&& PageFlag.writable != 0

/-! ### Calls of the handlers -/

/-- The call of a handler that `handle_pf` makes: the state there, and the region. -/
def served (s : State) (d : Pid) (addr : ℕ) : Option (State × Region) :=
  let r := isMapped s d addr
  if r.1 then none
  else ((r.2.dirs d).regions.find? (·.covers addr)).map fun region => (r.2, region)

theorem handlePf_served (s : State) (d : Pid) (addr : ℕ) : handlePf s d addr = match served s d addr with
      | none => some (false, (isMapped s d addr).2)
      | some c => (c.2.handle c.1 addr).map fun s => (true, s) := by
  unfold handlePf served
  simp only
  split
  · rfl
  · cases ((isMapped s d addr).2.dirs d).regions.find? (·.covers addr) <;> rfl

variable {op : ShmOp} {s : State} {addr : ℕ}

theorem served_calm (h : served s d addr = some c) : Calm s c.1 := by
  unfold served at h
  simp only at h
  split at h
  · cases h
  · obtain ⟨region, -, rfl⟩ := map_eq_some_iff.1 h
    exact getTableEntry_calm ..

/-- The call of a handler that `page_fault_handler` makes: for the current process, or for the
kernel's. -/
def faultCall (s : State) (addr : ℕ) : Option (State × Region) :=
  let x := (virt2phys s s.current addr).2
  match served x s.current addr with
  | some c => some c
  | none => served (isMapped x s.current addr).2 kernelPid addr

theorem faultCall_calm (h : faultCall s addr = some c) : Calm s c.1 := by
  have hlook : Calm s (virt2phys s s.current addr).2 := getTableEntry_calm ..
  unfold faultCall at h
  simp only at h
  split at h
  · rename_i c' hc
    cases h
    exact hlook.trans (served_calm hc)
  · exact (hlook.trans (getTableEntry_calm ..)).trans (served_calm h)

theorem pageFault_handled (h : pageFault s addr user = some s') (hc : faultCall s addr = some c) :
    c.2.handle c.1 addr = some s' := by
  unfold pageFault at h
  unfold faultCall at hc
  simp only at hc
  rw [handlePf_served] at h
  split at hc
  · rename_i c' hc'
    cases hc
    rw [hc'] at h
    obtain ⟨r, hr, h⟩ := bind_eq_some_iff.1 h
    obtain ⟨y, hy, rfl⟩ := map_eq_some_iff.1 hr
    cases h
    exact hy
  · rename_i hnone
    rw [hnone] at h
    simp only [bind_some, handlePf_served, hc, Bool.false_eq_true, if_false] at h
    obtain ⟨r, hr, h⟩ := bind_eq_some_iff.1 h
    obtain ⟨y, hy, rfl⟩ := map_eq_some_iff.1 hr
    cases h
    exact hy

/-- The call of `map_page_at` that `shm_pf_handler` makes: the state there, the page and the flags. -/
def shmMapCall (s : State) (id addr : ℕ) : Option (State × ℕ × ℕ) :=
  (s.mappings.lookup id).bind fun m =>
    (s.spaces.lookup m.space).bind fun space =>
      -- `pageflags`, which is not used
      let _pageflags := PageFlag.present ||| PageFlag.usermode |||
        if (space.owner == s.current || !isReadOnly space.flags) && !isReadOnly m.flags then
          PageFlag.writable else 0
      match space.pages.lookup (m.pageOffset addr) with
      | some page => some (s, page, userFlags)
      | none =>
          (physicalAlloc s.physical).map fun r =>
            (addSpacePage { s with physical := r.2 } m.space (m.pageOffset addr) r.1, r.1, userFlags)

/-- **The handler is its call of `map_page_at`.** -/
theorem shmPfHandler_eq (s : State) (id addr : ℕ) :
    shmPfHandler s id addr = (shmMapCall s id addr).bind fun c =>
      mapPageAt c.1 (addressOf addr) c.2.1 c.2.2 := by
  unfold shmPfHandler shmMapCall
  cases s.mappings.lookup id with
  | none => rfl
  | some m =>
    simp only [bind_some]
    cases s.spaces.lookup m.space with
    | none => rfl
    | some space =>
      simp only [bind_some]
      cases space.pages.lookup (m.pageOffset addr) with
      | some page => rfl
      | none =>
        cases physicalAlloc s.physical with
        | none | some r => rfl

/-- What a fault that is served does: it maps the page that the space has at the offset, or a new
one that the space gets there. -/
theorem shmPfHandler_call {id addr : ℕ} (h : shmPfHandler s id addr = some s') :
    ∃ m sp f x, s.mappings.lookup id = some m ∧ s.spaces.lookup m.space = some sp ∧
      shmMapCall s id addr = some (x, f, userFlags) ∧ mapPageAt x (addressOf addr) f userFlags = some s' ∧
      ((sp.pages.lookup (m.pageOffset addr) = some f ∧ x = s) ∨
        ∃ ph, sp.pages.lookup (m.pageOffset addr) = none ∧ physicalAlloc s.physical = some (f, ph) ∧
          x = addSpacePage { s with physical := ph } m.space (m.pageOffset addr) f) := by
  rw [shmPfHandler_eq] at h
  obtain ⟨r, hr, h⟩ := bind_eq_some_iff.1 h
  have hcall := hr
  obtain ⟨m, hm, hr⟩ := bind_eq_some_iff.1 hr
  obtain ⟨sp, hsp, hr⟩ := bind_eq_some_iff.1 hr
  dsimp only at hr
  split at hr
  · rename_i f hf
    cases hr
    exact ⟨m, sp, f, s, hm, hsp, hcall, h, .inl ⟨hf, rfl⟩⟩
  · rename_i hf
    obtain ⟨q, hq, rfl⟩ := map_eq_some_iff.1 hr
    exact ⟨m, sp, q.1, _, hm, hsp, hcall, h, .inr ⟨q.2, hf, hq, rfl⟩⟩

/-! ### What is asked for -/

/-- Memory, with the owner and the flags of each space that `shm_create` made, and the space and the
flags of each mapping that `shm_map` made, by id. -/
structure Shared where
  mem : State
  created : ℕ → Option (Pid × ℕ)
  requested : ℕ → Option (ℕ × ℕ)

def started (b : BootInfo) : Shared := ⟨boot b, fun _ => none, fun _ => none⟩

/-- The operations, and `resolve_addr` on behalf of `is_safe_ptr`, which also serves faults. -/
inductive ShmOp where
  | mem (op : MemOp)
  | resolve (addr : Word32)

def ShmOp.run (s : State) : ShmOp → Option State
  | .mem op => memStep s op
  | .resolve addr => (resolveAddr s addr).map Prod.snd

/-- What an operation asks for is noted: the flags of a space or of a mapping. -/
def Shared.note (w : Shared) : ShmOp → Shared
  | .mem (.shmCreate flags) =>
      let id := add64 w.mem.spaceIdCounter 1
      { w with created := update w.created id (some (w.mem.current, flags)) }
  | .mem (.shmMap id addr offset _ flags) =>
      let mid := add64 w.mem.mappingIdCounter 1
      if shmMapChecks w.mem id addr offset then
        { w with requested := update w.requested mid (some (id.val, flags)) }
      else w
  | _ => w

def shmStep (w : Shared) (op : ShmOp) : Option Shared := (op.run w.mem).map fun s => { w.note op with mem := s }

/-- The records are those of what was asked for. -/
structure Shared.Agrees (w : Shared) : Prop where
  spaces : ∀ x ∈ w.mem.spaces, w.created x.1 = some (x.2.owner, x.2.flags)
  mappings : ∀ x ∈ w.mem.mappings, ∃ flags, w.requested x.1 = some (x.2.space, flags)

theorem started_agrees (b : BootInfo) : (started b).Agrees := ⟨nofun, nofun⟩

theorem Shared.Agrees.of_within {w : Shared} (h : w.Agrees) (hs : s.shm.Within w.mem.shm) :
    Shared.Agrees { w with mem := s } where
  spaces x hx := by
    obtain ⟨y, hy, hid, howner, hflags⟩ := hs.spaces x hx
    show w.created x.1 = some (x.2.owner, x.2.flags)
    rw [← hid, ← howner, ← hflags]
    exact h.spaces y hy
  mappings x hx := h.mappings x (hs.mappings x hx)

theorem mem_filter_ne_append {α : Type*} {l : List (ℕ × α)} {n : ℕ} {y : α} {x : ℕ × α}
    (hx : x ∈ l.filter (fun p => p.1 != n) ++ [(n, y)]) : (x ∈ l ∧ x.1 ≠ n) ∨ x = (n, y) := by
  rw [mem_append, mem_singleton, mem_filter, bne_iff_ne] at hx
  exact hx

theorem Shared.Agrees.create {w : Shared} (h : w.Agrees) (flags : ℕ) :
    Shared.Agrees { w.note (.mem (.shmCreate flags)) with mem := (shmCreate w.mem flags).2 } := by
  refine ⟨?_, h.mappings⟩
  intro x hx
  show update w.created _ _ x.1 = _
  rcases mem_filter_ne_append hx with ⟨hmem, hne⟩ | rfl
  · rw [update_of_ne hne]
    exact h.spaces x hmem
  · rw [update_self]

theorem Shared.Agrees.record {w : Shared} (h : w.Agrees) {u : State} (hu : u.shm = w.mem.shm)
    (id addr offset pages flags : ℕ) :
    Shared.Agrees ⟨shmRecord u id addr offset pages, w.created, update w.requested
      (add64 w.mem.mappingIdCounter 1) (some (id, flags))⟩ := by
  obtain ⟨hspaces, -, hmappings, hcounter⟩ := ShmRecords.mk.inj hu
  refine ⟨?_, ?_⟩
  · intro x hx
    exact h.spaces x (hspaces ▸ hx)
  · intro x hx
    show ∃ f, update w.requested _ _ x.1 = _
    rw [← hcounter]
    rcases mem_filter_ne_append hx with ⟨hmem, hne⟩ | rfl
    · rw [update_of_ne hne]
      exact h.mappings x (hmappings ▸ hmem)
    · exact ⟨flags, update_self ..⟩

/-- **Every step keeps the records right.** -/
theorem shmStep_agrees {w w' : Shared} (h : w.Agrees) (hs : shmStep w op = some w') : w'.Agrees := by
  obtain ⟨s, hrun, rfl⟩ := map_eq_some_iff.1 hs
  cases op with
  | resolve addr =>
    obtain ⟨r, hr, rfl⟩ := map_eq_some_iff.1 hrun
    exact h.of_within (resolveAddr_within hr)
  | mem op =>
    have hrun' : memStep w.mem op = some s := hrun
    cases op with
    | shmCreate flags =>
      cases hrun'
      exact h.create flags
    | shmMap id addr offset pages flags =>
      obtain ⟨r, hr, rfl⟩ := map_eq_some_iff.1 hrun'
      simp only [Shared.note]
      rcases shmMap_cases hr with ⟨hchecks, hsame⟩ | ⟨hchecks, x, u, hx, hu, hrec⟩
      · rw [hchecks, hsame]
        exact h
      · rw [hchecks, hrec]
        exact h.record (guarded_shm hx hu) id addr offset pages flags
    | _ =>
      refine h.of_within (memStep_within ?_ hrun')
      trivial

/-! ### Grants -/

/-- The call of a handler in an operation: the state there, the region and the address. -/
def ShmOp.call (s : State) : ShmOp → Option (State × Region × ℕ)
  | .mem (.pageFault addr _) => (faultCall s addr).map fun c => (c.1, c.2, addr.val)
  | .resolve addr => (served s s.current addr).map fun c => (c.1, c.2, addr.val)
  | _ => none

theorem call_calm (h : op.call s = some c) : Calm s c.1 := by
  cases op with
  | resolve addr =>
    obtain ⟨c', hc, rfl⟩ := map_eq_some_iff.1 h
    exact served_calm hc
  | mem op =>
    cases op with
    | pageFault addr user =>
      obtain ⟨c', hc, rfl⟩ := map_eq_some_iff.1 h
      exact faultCall_calm hc
    | _ => cases h

theorem run_call (h : op.run s = some s') (hc : op.call s = some c) :
    ∃ x, c.2.1.handle c.1 c.2.2 = some x ∧ Calm x s' := by
  cases op with
  | resolve addr =>
    obtain ⟨c', hc', rfl⟩ := map_eq_some_iff.1 hc
    obtain ⟨r, hr, rfl⟩ := map_eq_some_iff.1 h
    obtain ⟨q, hq, rfl⟩ := map_eq_some_iff.1 hr
    rw [handlePf_served, hc'] at hq
    obtain ⟨y, hy, rfl⟩ := map_eq_some_iff.1 hq
    exact ⟨y, hy, getTableEntry_calm ..⟩
  | mem op =>
    cases op with
    | pageFault addr user =>
      obtain ⟨c', hc', rfl⟩ := map_eq_some_iff.1 hc
      exact ⟨s', pageFault_handled h hc', .refl s'⟩
    | _ => cases hc

/-- A page of a space that is mapped in a process through a mapping, with the flags for it. -/
structure Grant where
  pid : Pid
  mapping : ℕ
  space : ℕ
  page : ℕ
  flags : ℕ
  deriving DecidableEq, Repr

/-- The page that `shm_pf_handler` maps in an operation. -/
def ShmOp.grant (s : State) (op : ShmOp) : Option Grant :=
  (op.call s).bind fun (x, region, addr) =>
    match region.pfHandle with
    | .mmapRead => none
    | .shmPfHandler =>
        (x.mappings.lookup region.id).bind fun m =>
          (shmMapCall x region.id addr).map fun r => ⟨x.current, region.id, m.space, r.2.1, r.2.2⟩

/-- The grant is what was asked for: if it is `Writable`, the space was not made read-only or is the
process's own, and the mapping was not made read-only. -/
def Grant.Respects (g : Grant) (w : Shared) : Prop :=
  writable g.flags = true → (∀ owner flags, w.created g.space = some (owner, flags) → isReadOnly flags = true →
      owner = g.pid) ∧
    ∀ space flags, w.requested g.mapping = some (space, flags) → isReadOnly flags = false

/-- Every grant of the operation respects what was asked for. -/
def GrantOk (w : Shared) (op : ShmOp) : Prop := ∀ g, op.grant w.mem = some g → g.Respects w

/-- The condition on a fault that `shm_pf_handler` is called for: its mapping was not asked for as
read-only, and the space of the mapping is not read-only or belongs to the current process. -/
def FaultOk (w : Shared) (op : ShmOp) : Prop :=
  ∀ x region addr, op.call w.mem = some (x, region, addr) → region.pfHandle = .shmPfHandler →
    ∀ m, w.mem.mappings.lookup region.id = some m →
      (∀ sp, w.mem.spaces.lookup m.space = some sp → isReadOnly sp.flags = true → sp.owner = w.mem.current) ∧
      ∀ space flags, w.requested region.id = some (space, flags) → isReadOnly flags = false

theorem grant_of_call (hc : op.call s = some (x, region, addr))
    (hshm : region.pfHandle = .shmPfHandler) (hy : region.handle x addr = some y) :
    ∃ m sp page, s.mappings.lookup region.id = some m ∧ s.spaces.lookup m.space = some sp ∧
      op.grant s = some ⟨s.current, region.id, m.space, page, userFlags⟩ := by
  obtain ⟨hrecords, hcur, -⟩ := call_calm hc
  obtain ⟨hspaces, -, hmappings, -⟩ := ShmRecords.mk.inj hrecords
  dsimp only at hspaces hmappings hcur
  simp only [Region.handle, hshm] at hy
  obtain ⟨m, sp, page, z, hm, hsp, hcall, -⟩ := shmPfHandler_call hy
  refine ⟨m, sp, page, hmappings ▸ hm, hspaces ▸ hsp, ?_⟩
  simp only [ShmOp.grant, hc, bind_some, hshm, hm, hcall, map_some, hcur]

/-- **One operation**: where the records are right, its grant respects what was asked for exactly if
its fault meets the condition. -/
theorem grantOk_iff (h : w.Agrees) (hs : shmStep w op = some w') : GrantOk w op ↔ FaultOk w op := by
  obtain ⟨s, hrun, -⟩ := map_eq_some_iff.1 hs
  have hwritable : writable userFlags = true := by decide
  constructor
  · intro hgrant x region addr hc hshm m hm
    obtain ⟨y, hy, -⟩ := run_call hrun hc
    obtain ⟨m', sp, page, hm', hsp, hg⟩ := grant_of_call hc hshm hy
    cases hm.symm.trans hm'
    obtain ⟨hspace, hmapping⟩ := hgrant _ hg hwritable
    refine ⟨?_, hmapping⟩
    intro sp' hsp' hro
    cases hsp.symm.trans hsp'
    exact hspace _ _ (h.spaces _ (mem_of_lookup hsp)) hro
  · intro hok g hg _
    obtain ⟨⟨x, region, addr⟩, hc, hrest⟩ := bind_eq_some_iff.1 hg
    dsimp only at hrest
    split at hrest
    · cases hrest
    · rename_i hshm
      obtain ⟨y, hy, -⟩ := run_call hrun hc
      obtain ⟨m, sp, page, hm, hsp, hg'⟩ := grant_of_call hc hshm hy
      cases hg.symm.trans hg'
      obtain ⟨hspace, hmapping⟩ := hok x region addr hc hshm m hm
      refine ⟨?_, hmapping⟩
      intro owner flags hcreated hro
      cases hcreated.symm.trans (h.spaces _ (mem_of_lookup hsp))
      exact hspace sp hsp hro

end Btos.Kernel.Mm2
