import Btos.Kernel.Mm2.ShmFlags

/-!
# Read-only pages in the page tables

What `shm_pf_handler` grants is in `ShmFlags`; here is what a whole run of the system does with it.

* `Proper` — the invariant: **a mapping of a read-only space is in the owner's process**, and a page of a
  space is mapped only where a mapping of the space is;
* `shm_readOnly_iff` — **the grants of a run respect what was asked for exactly when its faults meet
  `FaultOk`**, and no state that is reached by steps that meet `MapsOk` has a foreign writable page.
-/

namespace Btos.Kernel.Mm2

open Lib.Word Lib.Loop Lib.Lists Lib.Transition List Bool

/-- A page of a space that was made read-only is mapped `Writable` in a process other than its owner. -/
def ForeignWritable (w : Shared) : Prop :=
  ∃ a owner flags d idx f, w.created a = some (owner, flags) ∧ isReadOnly flags = true ∧ d ≠ owner ∧
    InSpace w.mem a f ∧ Refers w.mem d idx f ∧ writable (storedEntry w.mem d idx) = true

/-- The condition on a mapping that is made: the space is not read-only or is the process's own. -/
def OwnMapping (s : State) : MemOp → Prop
  | .shmMap id addr offset _ _ => shmMapChecks s id addr offset = true →
      ∀ sp, s.spaces.lookup id.val = some sp → isReadOnly sp.flags = true → sp.owner = s.current
  | _ => True

def MapsOk (w : Shared) : ShmOp → Prop
  | .mem op => MemOk w.mem op ∧ OwnMapping w.mem op
  | .resolve _ => True

/-- A mapping is of a space that was made, and if that is read-only it is in the owner's process. -/
def OwnMappings (s : State) : Prop :=
  ∀ x ∈ s.mappings, x.2.space ≤ s.spaceIdCounter ∧
    ∀ y ∈ s.spaces, y.1 = x.2.space → isReadOnly y.2.flags = true → y.2.owner = x.2.pid

structure Proper (w : Shared) : Prop where
  tables : Tables w.mem
  owned : Owned w.mem
  agrees : w.Agrees
  own : OwnMappings w.mem

/-- **No foreign page is writable** where a page of a space is mapped only by the mappings of it. -/
theorem Proper.not_foreignWritable (h : Proper w) : ¬ForeignWritable w := by
  rintro ⟨a, owner, flags, d, idx, f, hcreated, hro, hne, hspace, href, -⟩
  have hF : idx ≠ w.mem.tableFrame := by
    rintro rfl
    exact h.owned.not_isTable hspace (href.isTable h.tables h.owned)
  obtain ⟨x, hx, hxa, i, hslot, -⟩ :=
    h.owned.sound.covered _ f a ⟨d, idx, rfl, href.maps hF⟩ hspace
  obtain ⟨rfl, -⟩ := slot_eq_some hslot
  obtain ⟨y, hy, rfl, -⟩ := hspace
  have hy' := (h.agrees.spaces y hy).symm.trans hcreated
  cases hy'
  exact hne ((h.own x hx).2 y hy hxa.symm hro).symm

/-! ### Steps -/

theorem OwnMappings.of_within (h : OwnMappings s) (hs : s'.shm.Within s.shm) : OwnMappings s' := by
  intro x hx
  obtain ⟨hle, hown⟩ := h x (hs.mappings x hx)
  refine ⟨hle.trans_eq hs.spaceIdCounter.symm, ?_⟩
  intro y hy hid hro
  obtain ⟨z, hz, hzid, howner, hflags⟩ := hs.spaces y hy
  rw [← howner]
  exact hown z hz (hzid.trans hid) (hflags ▸ hro)

theorem OwnMappings.create (h : OwnMappings s) (hid : s.spaceIdCounter + 1 < 2 ^ 64)
    (flags : ℕ) : OwnMappings (shmCreate s flags).2 := by
  have hnew : add64 s.spaceIdCounter 1 = s.spaceIdCounter + 1 := add64_of_lt hid
  intro x hx
  obtain ⟨hle, hown⟩ := h x hx
  refine ⟨(Nat.le_succ_of_le hle).trans_eq hnew.symm, ?_⟩
  intro y hy hya hro
  rcases mem_filter_ne_append hy with ⟨hy, -⟩ | rfl
  · exact hown y hy hya hro
  · omega

theorem OwnMappings.record {id addr offset pages : ℕ} (h : OwnMappings s)
    (hu : u.shm = s.shm) (hcur : u.current = s.current) (hid : id ≤ s.spaceIdCounter)
    (hown : ∀ y ∈ s.spaces, y.1 = id → isReadOnly y.2.flags = true → y.2.owner = s.current) :
    OwnMappings (shmRecord u id addr offset pages) := by
  obtain ⟨hspaces, hcounter, hmappings, -⟩ := ShmRecords.mk.inj hu
  intro x hx
  show x.2.space ≤ u.spaceIdCounter ∧ ∀ y ∈ u.spaces, _
  rw [hspaces, hcounter]
  rcases mem_filter_ne_append hx with ⟨hx, -⟩ | rfl
  · exact h x (hmappings ▸ hx)
  · refine ⟨hid, ?_⟩
    show ∀ y ∈ s.spaces, y.1 = id → _ → y.2.owner = u.current
    rw [hcur]
    exact hown

/-- **A mapping that is made** is of a space that exists, and is proper. -/
theorem Proper.map_own {id : Word64} (h : Proper w) (hmem : MemOk w.mem (.shmMap id addr offset pages flags))
    (hmap : OwnMapping w.mem (.shmMap id addr offset pages flags))
    (hr : shmMap w.mem id addr offset pages flags = some r) : OwnMappings r.2 := by
  rcases shmMap_cases hr with ⟨-, hsame⟩ | ⟨hchecks, x, u, hx, hu, hrec⟩
  · rw [hsame]
    exact h.own
  · obtain ⟨hready, -, -, -, hrange⟩ := hmem hchecks
    obtain ⟨htx, hox, hsx⟩ := freePages_owned h.tables h.owned hrange hx
    obtain ⟨-, hxu⟩ := guardPages_owned htx hox (hsx.schedulerReady.trans hready)
      (fun i hi => lt_of_lt_rangeTurns hi) hu
    -- the space is there, and all records of its id have one owner and one set of flags
    obtain ⟨sp, hsp⟩ := (of_shmMapChecks hchecks).1
    have hmemsp := mem_of_lookup hsp
    rw [hrec]
    refine h.own.record (guarded_shm hx hu) (hsx.trans hxu).current (h.owned.books.space_id _ hmemsp) ?_
    intro y hy hid hro
    have heq := (h.agrees.spaces y hy).symm.trans
      ((congrArg w.created hid).trans (h.agrees.spaces _ hmemsp))
    obtain ⟨howner, hflags⟩ := Prod.mk.inj (Option.some.inj heq)
    rw [howner]
    exact hmap hchecks sp hsp (hflags ▸ hro)

theorem resolveAddr_owned {addr : Word32} (ht : Tables s) (ho : Owned s)
    (h : resolveAddr s addr = some r) : Tables r.2 ∧ Owned r.2 := by
  obtain ⟨q, hq, rfl⟩ := Option.map_eq_some_iff.1 h
  obtain ⟨htq, hoq⟩ := handlePf_owned ht ho addr.2 hq
  exact ⟨htq.quiet (look_quiet htq addr.2), look_owned htq hoq addr.2⟩

/-- **The step lemma.** -/
theorem shmStep_proper (h : Proper w) (hok : MapsOk w op) (hs : shmStep w op = some w') : Proper w' := by
  have hagrees := shmStep_agrees h.agrees hs
  obtain ⟨s, hrun, rfl⟩ := Option.map_eq_some_iff.1 hs
  cases op with
  | resolve addr =>
    obtain ⟨r, hr, rfl⟩ := Option.map_eq_some_iff.1 hrun
    obtain ⟨ht, ho⟩ := resolveAddr_owned h.tables h.owned hr
    exact ⟨ht, ho, hagrees, h.own.of_within (resolveAddr_within hr)⟩
  | mem op =>
    obtain ⟨hmem, hmap⟩ := hok
    have hrun' : memStep w.mem op = some s := hrun
    obtain ⟨ht, ho⟩ := memStep_owned h.tables h.owned hmem hrun'
    refine ⟨ht, ho, hagrees, ?_⟩
    cases op with
    | shmCreate flags =>
      cases hrun'
      exact h.own.create hmem flags
    | shmMap id addr offset pages flags =>
      obtain ⟨r, hr, rfl⟩ := Option.map_eq_some_iff.1 hrun'
      exact h.map_own hmem hmap hr
    | _ =>
      refine h.own.of_within (memStep_within ?_ hrun')
      trivial

theorem started_proper (b : BootInfo) : Proper (started b) :=
  ⟨boot_tables b, boot_owned b, started_agrees b, nofun⟩

/-! ### Runs -/

/-- **Read-only shared memory.**  In every run from boot, what `shm_pf_handler` maps respects what was
asked for exactly if each of its faults meets the condition; and no state that is reached by steps that
meet `MapsOk` has a read-only page writable in a process other than the owner. -/
theorem shm_readOnly_iff (b : BootInfo) : (∀ ops w, exec shmStep (started b) ops = some w →
      (Guarded shmStep GrantOk (started b) ops ↔ Guarded shmStep FaultOk (started b) ops)) ∧
    ∀ w, Reach shmStep MapsOk (started b) w → ¬ForeignWritable w := by
  constructor
  · intro ops w hrun
    exact guarded_iff Shared.Agrees (fun _ => True) (fun _ _ _ _ _ => trivial)
      (fun _ _ _ h _ hs => grantOk_iff h hs) (fun _ _ _ h _ hs _ => shmStep_agrees h hs) ops _
      (started_agrees b) hrun trivial
  · intro w hw
    have hproper := hw.invariant Proper (started_proper b) fun _ _ _ h hok hs => shmStep_proper h hok hs
    exact hproper.not_foreignWritable

instance (s : State) : (op : MemOp) → Decidable (OwnMapping s op)
  | .shmMap id addr offset _ _ => inferInstanceAs (Decidable (shmMapChecks s id addr offset = true →
      ∀ sp ∈ s.spaces.lookup id.val, isReadOnly sp.flags = true → sp.owner = s.current))
  | .dir _ | .destroy _ | .shmCreate _ | .shmCloseMap _ | .shmClose _ | .pageFault _ _ | .allocAt _ _
  | .freePages _ _ => .isTrue trivial

instance (w : Shared) (op : ShmOp) : Decidable (FaultOk w op) :=
  decidable_of_iff (∀ c ∈ op.call w.mem, c.2.1.pfHandle = .shmPfHandler → ∀ m ∈ w.mem.mappings.lookup c.2.1.id,
    (∀ sp ∈ w.mem.spaces.lookup m.space, isReadOnly sp.flags = true → sp.owner = w.mem.current) ∧
      ∀ q ∈ w.requested c.2.1.id, isReadOnly q.2 = false) (by simp [FaultOk])

def ShmOp.plain (s : State) : ShmOp → Bool
  | .mem op => Mm2.plain s op
  | .resolve _ => true

def ShmOp.OwnMapping (s : State) : ShmOp → Prop
  | .mem op => Mm2.OwnMapping s op
  | .resolve _ => True

instance (s : State) : (op : ShmOp) → Decidable (op.OwnMapping s)
  | .mem op => inferInstanceAs (Decidable (Mm2.OwnMapping s op))
  | .resolve _ => .isTrue trivial

theorem mapsOk_of_plain (h : Proper w) (hok : op.plain w.mem = true ∧ op.OwnMapping w.mem) : MapsOk w op := by
  cases op with
  | mem op => exact ⟨memOk_of_plain h.tables hok.1, hok.2⟩
  | resolve addr => trivial

theorem shm_readOnly_iff_touched : ∃ w,
    exec shmStep (started smallBoot) (processRuns.map .mem ++ touchShared.map .mem) = some w ∧
      (∃ f, InSpace w.mem 1 f ∧ Refers w.mem 1 0x40000 f ∧ writable (storedEntry w.mem 1 0x40000) = true) ∧
      Guarded shmStep GrantOk (started smallBoot) (processRuns.map .mem ++ touchShared.map .mem) ∧
      ¬ForeignWritable w := by
  have hcheck : (exec shmStep (started smallBoot) (processRuns.map .mem ++ touchShared.map .mem)).map
      (fun w => w.mem.live 1 && present (storedEntry w.mem 1 0x40000) &&
        writable (storedEntry w.mem 1 0x40000) && w.mem.spaces.any fun x =>
          x.1 == 1 && x.2.pages.any (·.2 == addressOf (storedEntry w.mem 1 0x40000))) = some true := by
    decide +kernel
  obtain ⟨w, hw, hcheck⟩ := Option.map_eq_some_iff.1 hcheck
  simp only [and_eq_true, beq_iff_eq, any_eq_true] at hcheck
  obtain ⟨⟨⟨hlive, hp⟩, hwrite⟩, x, hx, hid, q, hq, hqf⟩ := hcheck
  have hfaults : Guarded shmStep FaultOk (started smallBoot) (processRuns.map .mem ++ touchShared.map .mem) := by
    decide +kernel
  have hplain : Guarded shmStep (fun w op => op.plain w.mem = true ∧ op.OwnMapping w.mem) (started smallBoot)
      (processRuns.map .mem ++ touchShared.map .mem) := by
    decide +kernel
  have hmaps := Guarded.of_enough Proper (fun _ _ h => mapsOk_of_plain h)
    (fun _ _ _ h hok hs => shmStep_proper h hok hs) _ _ (started_proper smallBoot) hplain
  have hmain := shm_readOnly_iff smallBoot
  exact ⟨w, hw, ⟨q.2, ⟨x, hx, hid, q, hq, rfl⟩, ⟨hlive, by decide, hp, hqf.symm⟩, hwrite⟩,
    (hmain.1 _ w hw).2 hfaults, hmain.2 w (Reach.of_exec _ _ _ _ hw hmaps)⟩

/-- A process makes a read-only space, and another one maps it, read-only as well. -/
def mapReadOnly : List MemOp :=
  [.dir (.newDirectory 1 (List.replicate 64 (0, 0))), .dir (.newDirectory 2 (List.replicate 64 (0, 0))),
    .dir .startScheduler, .dir (.switchTo 1), .shmCreate 1, .dir (.switchTo 2),
    .shmMap 1 0x40000000 0 1 1]

/-- The second process touches the page: it gets it with `Writable` set, in a mapping that it asked for
as read-only, of a read-only space that is not its own. -/
theorem readOnly_page_writable : ∃ w w' g, exec shmStep (started smallBoot) (mapReadOnly.map .mem) = some w ∧
      ShmOp.grant w.mem (.mem (.pageFault 0x40000000 true)) = some g ∧ writable g.flags = true ∧
      w.created g.space = some (1, 1) ∧ g.pid = 2 ∧ w.requested g.mapping = some (1, 1) ∧
      isReadOnly 1 = true ∧ ¬g.Respects w ∧
      shmStep w (.mem (.pageFault 0x40000000 true)) = some w' ∧ ForeignWritable w' := by
  have hcheck : ((exec shmStep (started smallBoot) (mapReadOnly.map .mem)).bind fun w =>
      (ShmOp.grant w.mem (.mem (.pageFault 0x40000000 true))).bind fun g =>
        (shmStep w (.mem (.pageFault 0x40000000 true))).map fun w' =>
          writable g.flags && w.created g.space == some (1, 1) && g.pid == 2 &&
            w.requested g.mapping == some (1, 1) && w'.created 1 == some (1, 1) && w'.mem.live 2 &&
            present (storedEntry w'.mem 2 0x40000) && writable (storedEntry w'.mem 2 0x40000) &&
            w'.mem.spaces.any fun x => x.1 == 1 && x.2.pages.any (·.2 ==
              addressOf (storedEntry w'.mem 2 0x40000))) = some true := by
    decide +kernel
  obtain ⟨w, hw, hcheck⟩ := Option.bind_eq_some_iff.1 hcheck
  obtain ⟨g, hg, hcheck⟩ := Option.bind_eq_some_iff.1 hcheck
  obtain ⟨w', hw', hcheck⟩ := Option.map_eq_some_iff.1 hcheck
  simp only [and_eq_true, beq_iff_eq] at hcheck
  obtain ⟨⟨⟨⟨⟨⟨⟨⟨hflags, hcreated⟩, hpid⟩, hrequested⟩, hcreated'⟩, hlive⟩, hp⟩, hwrite⟩, hany⟩ := hcheck
  have hro : isReadOnly 1 = true := by decide
  refine ⟨w, w', g, hw, hg, hflags, hcreated, hpid, hrequested, hro, ?_, hw', ?_⟩
  · intro hrespects
    have hone := (hrespects hflags).1 1 1 hcreated hro
    rw [hpid] at hone
    exact absurd hone (by decide)
  · obtain ⟨x, hx, hxa⟩ := any_eq_true.1 hany
    simp only [and_eq_true, beq_iff_eq, any_eq_true] at hxa
    obtain ⟨hid, q, hq, hqf⟩ := hxa
    exact ⟨1, 1, 1, 2, 0x40000, q.2, hcreated', hro, by decide, ⟨x, hx, hid, q, hq, rfl⟩,
      ⟨hlive, by decide, hp, hqf.symm⟩, hwrite⟩

end Btos.Kernel.Mm2
