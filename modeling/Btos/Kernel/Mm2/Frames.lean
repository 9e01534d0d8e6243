import Btos.Lib.Ownership
import Btos.Kernel.Mm2.Faults
import Btos.Kernel.Mm2.Switch

/-!
# Who uses which physical page

The page tables and the shared-memory spaces of all processes, seen as references to physical pages.
A page of user space is a reference of one directory; a page of the kernel half is one reference of
all directories, since they share its table.

* `Owned` — **the view is sound**, the books fit, and the window shows a page table.

The window's own entry is not among the references; it always maps a page table.
-/

namespace Btos.Kernel.Mm2

open Lib.Word Lib.Loop Lib.Ownership

/-! ### The view -/

/-- A page of user space, with its directory, or a page of the kernel half. -/
abbrev Slot := Option Pid × ℕ

/-- The slot of page `idx` in directory `d`. -/
def slot (d : Pid) (idx : ℕ) : Slot := (if idx < kernelPages then none else some d, idx)

theorem slot_inj (h : slot d i = slot d' j) : i = j ∧ (d = d' ∨ i < kernelPages) := by
  obtain ⟨h1, h2⟩ := Prod.mk.inj h
  subst h2
  refine ⟨rfl, ?_⟩
  by_cases hk : i < kernelPages
  · exact .inr hk
  · rw [if_neg hk, if_neg hk] at h1
    exact .inl (Option.some.inj h1)

theorem slot_kernel (d d' : Pid) (h : idx < kernelPages) : slot d idx = slot d' idx := by
  rw [slot, slot, if_pos h, if_pos h]

theorem slot_user (d : Pid) (h : kernelPages ≤ idx) : slot d idx = (some d, idx) := by
  rw [slot, if_neg (Nat.not_lt.2 h)]

/-- Directory `d` maps page `idx` to the physical page at `f`. -/
structure Maps (s : State) (d : Pid) (idx f : ℕ) : Prop where
  live : s.live d = true
  lt : idx < 2 ^ 20
  ne : idx ≠ s.tableFrame
  isPresent : present (storedEntry s d idx) = true
  address : addressOf (storedEntry s d idx) = f

/-- The physical page at `f` is a page table of user space. -/
def UserTable (s : State) (f : ℕ) : Prop :=
  ∃ d t, s.live d = true ∧ kernelTables ≤ t ∧ t < 1024 ∧ s.tableWord d t ≠ 0 ∧ addressOf (s.tableWord d t) = f

theorem UserTable.isTable (h : UserTable s f) : IsTable s f := by
  obtain ⟨d, t, hd, -, ht, hw, hf⟩ := h
  exact ⟨d, t, hd, ht, hw, hf⟩

/-- The physical page at `f` is a page of the space `a`. -/
def InSpace (s : State) (a f : ℕ) : Prop := ∃ x ∈ s.spaces, x.1 = a ∧ ∃ q ∈ x.2.pages, q.2 = f

/-- The page `idx` is in the range of the mapping. -/
def ShmMapping.InRange (m : ShmMapping) (idx : ℕ) : Prop :=
  m.addr ≤ idx * 4096 ∧ idx * 4096 < add32 m.addr (mul32 m.pages pageSize)

/-- The page tables and spaces as references to physical pages. -/
def view (s : State) : View Slot ℕ ℕ where
  refs p f := ∃ d idx, slot d idx = p ∧ Maps s d idx f
  free := IsFree s.physical
  member := InSpace s
  covers p a := ∃ x ∈ s.mappings, x.2.space = a ∧ ∃ idx, p = (some x.2.pid, idx) ∧ x.2.InRange idx
  forbidden p f := UserTable s f ∨ (p.1 ≠ none ∧ IsTable s f)

theorem forbidden_isTable (h : (view s).forbidden p f) : IsTable s f := h.elim UserTable.isTable And.right

/-! ### The books -/

/-- The lists fit together: a region is that of its mapping, if it still exists, ids are below the
counters, mappings are in user space, and the kernel's process has no regions. -/
structure Books (s : State) : Prop where
  kernel_live : s.live kernelPid = true
  kernel_regions : (s.dirs kernelPid).regions = []
  regions : ∀ d, s.live d = true → ∀ r ∈ (s.dirs d).regions, r.pfHandle = .shmPfHandler ∧
    r.id ≤ s.mappingIdCounter ∧ ∀ m, (r.id, m) ∈ s.mappings →
      m.pid = d ∧ m.addr = r.addr ∧ mul32 m.pages pageSize = r.size
  mapping_id : ∀ x ∈ s.mappings, x.1 ≤ s.mappingIdCounter
  mapping_unique : ∀ x ∈ s.mappings, ∀ y ∈ s.mappings, x.1 = y.1 → x = y
  mapping_addr : ∀ x ∈ s.mappings, kernelBoundary ≤ x.2.addr ∧ x.2.addr % 4096 = 0
  space_id : ∀ x ∈ s.spaces, x.1 ≤ s.spaceIdCounter
  space_pages : SpacesOk s

/-- The books fit as well with fewer regions, mappings and spaces. -/
theorem Books.sub (h : Books s) (hkernel : s'.live kernelPid = true)
    (hregions : ∀ d, s'.live d = true → ∀ r ∈ (s'.dirs d).regions, s.live d = true ∧ r ∈ (s.dirs d).regions)
    (hmappings : ∀ x ∈ s'.mappings, x ∈ s.mappings) (hspaces : ∀ x ∈ s'.spaces, x ∈ s.spaces)
    (hmappingId : s'.mappingIdCounter = s.mappingIdCounter)
    (hspaceId : s'.spaceIdCounter = s.spaceIdCounter) : Books s' where
  kernel_live := hkernel
  kernel_regions := by
    rw [List.eq_nil_iff_forall_not_mem]
    intro r hr
    have hold := (hregions _ hkernel r hr).2
    rw [h.kernel_regions] at hold
    exact List.not_mem_nil hold
  regions d hd r hr := by
    obtain ⟨hd, hr⟩ := hregions d hd r hr
    obtain ⟨hshm, hle, hmap⟩ := h.regions d hd r hr
    exact ⟨hshm, hmappingId ▸ hle, fun m hm => hmap m (hmappings _ hm)⟩
  mapping_id x hx := hmappingId ▸ h.mapping_id x (hmappings x hx)
  mapping_unique x hx y hy := h.mapping_unique x (hmappings x hx) y (hmappings y hy)
  mapping_addr x hx := h.mapping_addr x (hmappings x hx)
  space_id x hx := hspaceId ▸ h.space_id x (hspaces x hx)
  space_pages x hx := h.space_pages x (hspaces x hx)

theorem Books.congr (h : Books s) (hlive : s'.live = s.live)
    (hregions : ∀ d, (s'.dirs d).regions = (s.dirs d).regions) (hspaces : s'.spaces = s.spaces)
    (hspaceId : s'.spaceIdCounter = s.spaceIdCounter) (hmappings : s'.mappings = s.mappings)
    (hmappingId : s'.mappingIdCounter = s.mappingIdCounter) : Books s' :=
  h.sub (hlive ▸ h.kernel_live) (fun d hd _ hr => ⟨hlive ▸ hd, hregions d ▸ hr⟩)
    (fun _ hx => hmappings ▸ hx) (fun _ hx => hspaces ▸ hx) hmappingId hspaceId

/-- Every physical page is used as it should be. -/
structure Owned (s : State) : Prop where
  shows : IsTable s s.window
  sound : (view s).Sound
  books : Books s

section Kept

variable {s s' : State}

theorem Kept.books (h : Kept s s') (hb : Books s) : Books s' :=
  hb.congr h.live h.regions h.spaces h.spaceIdCounter h.mappings h.mappingIdCounter

theorem Kept.member (h : Kept s s') (a f : ℕ) : InSpace s' a f ↔ InSpace s a f := by
  rw [InSpace, InSpace, h.spaces]

theorem Kept.covers (h : Kept s s') (p : Slot) (a : ℕ) : (view s).covers p a → (view s').covers p a := by
  show (∃ x ∈ s.mappings, _) → ∃ x ∈ s'.mappings, _
  rw [h.mappings]
  exact id

end Kept

/-! ### Steps that write no entry -/

theorem Maps.of_stored (hm : Maps s' d idx f) (hd : s.live e = true) (hF : s'.tableFrame = s.tableFrame)
    (hst : storedEntry s' d idx = storedEntry s e idx) : Maps s e idx f :=
  ⟨hd, hm.lt, hF ▸ hm.ne, hst ▸ hm.isPresent, hst ▸ hm.address⟩

namespace Sourced

variable {s s' : State} (h : Sourced s s')
include h

theorem forbidden (hf : (view s').forbidden p f) : (view s).forbidden p f := by
  rcases hf with ⟨d, t, hd, hk, htlt, hw, rfl⟩ | ⟨hp, htab⟩
  · obtain ⟨e, he, heq, -⟩ := h.word hd hw
    rw [heq] at hw ⊢
    exact .inl ⟨e, t, he, hk, htlt, hw, rfl⟩
  · exact .inr ⟨hp, h.isTable htab⟩

/-- Where the page tables hold what they held, what is mapped was mapped before. -/
theorem maps (hframes : s'.frames = s.frames) (hm : Maps s' d idx f) :
    ∃ e, slot e idx = slot d idx ∧ Maps s e idx f := by
  obtain ⟨e, he, heq, hcase⟩ := h.word hm.live (word_of_stored (ne_zero_of_present hm.isPresent))
  refine ⟨e, ?_, hm.of_stored he h.tableFrame (by rw [storedEntry, storedEntry, heq, hframes])⟩
  rcases hcase with rfl | hk
  · rfl
  · exact slot_kernel e d (kernel_table_iff.1 hk)

/-- **The view stays sound**; a page may be released that no directory maps and no space holds. -/
theorem sound (hv : (view s).Sound)
    (hmaps : ∀ {d idx f}, Maps s' d idx f → ∃ e, slot e idx = slot d idx ∧ Maps s e idx f)
    (hfree : ∀ f, IsFree s'.physical f → IsFree s.physical f ∨
      ((∀ d idx, ¬Maps s d idx f) ∧ ∀ a, ¬InSpace s a f)) (hmember : ∀ a f, InSpace s' a f ↔ InSpace s a f)
    (hcovers : ∀ p a, (view s).covers p a → (view s').covers p a) : (view s').Sound := by
  refine hv.drop ?_ ?_ (fun p f hf => .inl (h.forbidden hf)) (fun a f => (hmember a f).1)
    (fun _ f a _ => (hmember a f).2) fun p _ a _ _ => hcovers p a
  · rintro p f ⟨d, idx, rfl, hm⟩
    obtain ⟨e, he, hold⟩ := hmaps hm
    exact ⟨e, idx, he, hold⟩
  · intro f hf
    refine (hfree f hf).imp_right fun hout => ⟨?_, fun a ha => hout.2 a ((hmember a f).1 ha)⟩
    rintro p ⟨d, idx, rfl, hm⟩
    obtain ⟨e, -, hold⟩ := hmaps hm
    exact hout.1 e idx hold

end Sourced

theorem Alike.owned (h : Alike s x) (ht : Tables s) (hfree : ∀ g, IsFree x.physical g →
    IsFree s.physical g) (ho : Owned s) : Owned x := by
  have hsource : Sourced s x := ⟨h.kept.tableFrame, by rw [h.kept.live, h.kept.current]; exact ht.live_current,
    fun t _ => by rw [h.kept.current, h.tableWord],
    fun {d t} hd _ => ⟨d, h.kept.live ▸ hd, h.tableWord d t, .inl rfl⟩⟩
  refine ⟨?_, hsource.sound ho.sound (fun {d idx f} hm => ⟨d, rfl, ?_⟩) (fun f hf => .inl (hfree f hf))
    h.kept.member h.kept.covers, h.kept.books ho.books⟩
  · rw [h.isTable]
    rcases h.shows with hw | hw
    · rw [hw]
      exact ho.shows
    · exact hw
  · have hd : s.live d = true := h.kept.live ▸ hm.live
    exact hm.of_stored hd h.kept.tableFrame (h.stored d idx hd hm.lt (h.kept.tableFrame ▸ hm.ne))

/-- The tables are left intact; a page may be released that no directory maps and no space holds. -/
theorem Intact.sound (h : Intact s x) (ht : Tables s) (hv : (view s).Sound)
    (hfree : ∀ f, IsFree x.physical f → IsFree s.physical f ∨
      ((∀ d idx, ¬Maps s d idx f) ∧ ∀ a, ¬InSpace s a f)) (hmember : ∀ a f, InSpace x a f ↔ InSpace s a f)
    (hcovers : ∀ p a, (view s).covers p a → (view x).covers p a) : (view x).Sound := by
  refine (h.sourced ht).sound hv (fun {d idx f} hm => ⟨d, rfl, ?_⟩) hfree hmember hcovers
  have hd : s.live d = true := h.live ▸ hm.live
  exact hm.of_stored hd h.tableFrame (h.stored ht hd hm.lt (h.tableFrame ▸ hm.ne))

/-- What the page tables do not notice, given the books. -/
theorem Carried.owned (h : Carried s x) (ht : Tables s) (ho : Owned s)
    (hfree : ∀ f, IsFree x.physical f → IsFree s.physical f) (hmember : ∀ a f, InSpace x a f ↔ InSpace s a f)
    (hcovers : ∀ p a, (view s).covers p a → (view x).covers p a) (hb : Books x) : Tables x ∧ Owned x := by
  refine ⟨h.tables ht, ?_, (h.intact ht).sound ht ho.sound (fun f hf => .inl (hfree f hf)) hmember hcovers, hb⟩
  rw [h.isTable, h.window ht]
  exact ho.shows

theorem Quiet.owned (h : Quiet s x) (ht : Tables s) (ho : Owned s) : Owned x := by
  refine ⟨?_, h.intact.sound ht ho.sound ?_ h.kept.member h.kept.covers, h.kept.books ho.books⟩
  · rw [h.isTable]
    rcases h.shows with hw | hw
    · rw [hw]
      exact ho.shows
    · exact hw
  · rw [h.physical]
    exact fun _ => .inl

/-! ### Writing an entry -/

section

variable {s s' : State} {idx e : ℕ}

/-- What is mapped after a write: the new page in the slot that was written, and elsewhere what was
mapped before. -/
theorem Written.maps (h : Written s s' idx e) (hm : Maps s' d j f) :
    (slot d j = slot s.current idx ∧ present e = true ∧ addressOf e = f) ∨
      (slot d j ≠ slot s.current idx ∧ Maps s d j f) := by
  have hd := hm.live
  have hF := hm.ne
  rw [h.kept.live] at hd
  rw [h.kept.tableFrame] at hF
  by_cases hhit : j = idx ∧ Sees s' d idx
  · obtain ⟨rfl, hsees⟩ := hhit
    left
    have hst := h.hit d hd hsees
    refine ⟨?_, hst ▸ hm.isPresent, hst ▸ hm.address⟩
    rcases hsees.2 with hcur | hk
    · rw [hcur, h.kept.current]
    · exact slot_kernel d _ hk
  · right
    refine ⟨fun heq => ?_, hm.of_stored hd h.kept.tableFrame (h.other d j hd hm.lt hF hhit)⟩
    -- a directory with this slot that does not see the write has no table for it
    obtain ⟨rfl, hcase⟩ := slot_inj heq
    exact hhit ⟨rfl, word_of_stored (ne_zero_of_present hm.isPresent), hcase.imp_left fun hc => by
      rw [h.kept.current]; exact hc⟩

theorem Written.forbidden (h : Written s s' idx e) (p : Slot) (f : ℕ)
    (hf : (view s').forbidden p f) : (view s).forbidden p f ∨ (view s).free f := by
  rcases hf with ⟨d, t, hd, hk, htlt, hw, rfl⟩ | ⟨hp, d, t, hd, htlt, hw, rfl⟩
  · rw [h.kept.live] at hd
    rcases h.words d t with heq | ⟨-, -, -, hfree⟩
    · rw [heq] at hw ⊢
      exact .inl (.inl ⟨d, t, hd, hk, htlt, hw, rfl⟩)
    · exact .inr hfree
  · rw [h.kept.live] at hd
    rcases h.words d t with heq | ⟨-, -, -, hfree⟩
    · rw [heq] at hw ⊢
      exact .inl (.inr ⟨hp, d, t, hd, htlt, hw, rfl⟩)
    · exact .inr hfree

/-- **A page is mapped.** -/
theorem Written.owned (h : Written s s' idx e) (hv : (view s).Sound) (hb : Books s)
    (hfree : ∀ g, IsFree s'.physical g → IsFree s.physical g)
    (hused : ¬IsFree s'.physical (addressOf e)) (hnot : ¬IsTable s' (addressOf e))
    (halone : ∀ d j, slot d j ≠ slot s.current idx → Maps s d j (addressOf e) → ∃ a, InSpace s a (addressOf e))
    (hcovered : ∀ a, InSpace s a (addressOf e) → (view s).covers (slot s.current idx) a) : Owned s' := by
  refine ⟨h.shows, ?_, h.kept.books hb⟩
  refine hv.name (slot s.current idx) (addressOf e) ?_ hfree h.forbidden
    h.kept.member h.kept.covers hused (fun hf => hnot (forbidden_isTable hf)) ?_
    fun a ha => h.kept.covers _ a (hcovered a ha)
  · rintro p f ⟨d, j, rfl, hm⟩
    rcases h.maps hm with ⟨heq, -, hf⟩ | ⟨hne, hold⟩
    · exact .inr ⟨heq, hf.symm⟩
    · exact .inl ⟨hne, d, j, rfl, hold⟩
  · rintro p hne ⟨d, j, rfl, hm⟩
    exact halone d j hne hm

/-- **A new page is mapped.** -/
theorem NewPage.owned (h : NewPage s s' idx f flags) (hflags : flags < 4096) (ho : Owned s) : Owned s' := by
  have haddr : addressOf (f ||| flags) = f := addressOf_or h.aligned h.lt hflags
  refine h.written.owned ho.sound ho.books (fun g hg => (h.free g hg).1) ?_ ?_ ?_ ?_
  · rw [haddr]
    exact fun hf => (h.free f hf).2 rfl
  · rw [haddr]
    exact h.not_isTable
  · rw [haddr]
    intro d j _ hm
    exact absurd h.wasFree (ho.sound.used _ f ⟨d, j, rfl, hm⟩)
  · rw [haddr]
    intro a ha
    exact absurd h.wasFree (ho.sound.member_used a f ha)

/-- What is at a page of the current directory is not a page of a space. -/
def NotShared (s : State) (idx : ℕ) : Prop :=
  present (storedEntry s s.current idx) = true → ∀ a, ¬InSpace s a (addressOf (storedEntry s s.current idx))

/-- **A page is unmapped**, and what was there is released. -/
theorem Replaced.owned (h : Replaced s s' idx e) (he : present e = false) (ht : Tables s)
    (hidx : idx < 2 ^ 20) (hF : idx ≠ s.tableFrame) (hns : NotShared s idx) (hv : (view s).Sound)
    (hb : Books s) : Owned s' := by
  have hmaps : ∀ {d j f}, Maps s' d j f → slot d j ≠ slot s.current idx ∧ Maps s d j f := by
    intro d j f hm
    refine (h.written.maps hm).resolve_left fun hnew => ?_
    rw [he] at hnew
    cases hnew.2.1
  have hkept := h.written.kept
  refine ⟨h.written.shows, ?_, hkept.books hb⟩
  refine hv.drop ?_ ?_ h.written.forbidden (fun a f => (hkept.member a f).1)
    (fun _ f a _ => (hkept.member a f).2) (fun p _ a _ _ => hkept.covers p a)
  · rintro p f ⟨d, j, rfl, hm⟩
    exact ⟨d, j, rfl, (hmaps hm).2⟩
  · intro f hf
    refine (h.free f hf).imp_right ?_
    rintro ⟨hp, rfl⟩
    have hself : Maps s s.current idx (addressOf (storedEntry s s.current idx)) :=
      ⟨ht.live_current, hidx, hF, hp, rfl⟩
    refine ⟨?_, fun a ha => hns hp a ((hkept.member a _).1 ha)⟩
    rintro p ⟨d, j, rfl, hm⟩
    obtain ⟨hne, hold⟩ := hmaps hm
    rcases hv.exclusive _ _ _ ⟨d, j, rfl, hold⟩ ⟨_, idx, rfl, hself⟩ with heq | ⟨a, ha⟩
    · exact hne heq
    · exact hns hp a ha

end

end Btos.Kernel.Mm2
