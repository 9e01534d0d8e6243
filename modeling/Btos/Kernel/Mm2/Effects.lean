import Btos.Kernel.Mm2.Store
import Btos.Kernel.Mm2.Operations

/-!
# The steps that operations are made of

Each operation is made of few kinds of steps: reading (`Quiet`), changes that the page tables do not
notice (`Carried`: counters, hints, pages of memory that are not tables), and writing one entry
(`Written`).

* `Written.after`, `Written.before` — **a write among steps that change no entry** is a write from
  the first state to the last.
-/

namespace Btos.Kernel.Mm2

open Lib.Word Lib.Loop

/-! ### Changes that the tables do not notice -/

/-- The page tables, the directories and their caches are the same, and no table becomes `Free`. -/
structure Carried (s s' : State) : Prop extends Stays s s' where
  frames : ∀ f, IsTable s f → s'.frames f = s.frames f
  directory : ∀ d, (s'.dirs d).directory = (s.dirs d).directory
  entrycache : ∀ d, (s'.dirs d).entrycache = (s.dirs d).entrycache
  free : ∀ g, IsTable s g → IsFree s'.physical g → IsFree s.physical g

namespace Carried

variable {s s' : State}

theorem tableWord (h : Carried s s') (d : Pid) (t : ℕ) : s'.tableWord d t = s.tableWord d t :=
  congrFun (h.directory d) t

theorem isTable (h : Carried s s') (f : ℕ) : IsTable s' f ↔ IsTable s f := by
  simp only [IsTable, h.live, h.tableWord]

theorem windowTable (h : Carried s s') (d : Pid) : s'.windowTable d = s.windowTable d := by
  rw [State.windowTable, State.windowTable, h.tableWord, h.tableFrame]

variable {s : State} {d : Pid}

theorem stored (h : Carried s s') (hd : s.live d = true) (hidx : idx < 2 ^ 20) :
    storedEntry s' d idx = storedEntry s d idx :=
  stored_congr (h.tableWord d _) fun hw =>
    congrFun (h.frames _ ⟨d, idx / 1024, hd, by omega, hw, rfl⟩) _

theorem windowTable_isTable (ht : Tables s) : IsTable s (s.windowTable s.current) :=
  ⟨s.current, s.tableFrame / 1024, ht.live_current, Nat.lt_trans ht.windowIndex_lt (by decide),
    ht.windowed, rfl⟩

theorem window (h : Carried s s') (ht : Tables s) : s'.window = s.window := by
  rw [State.window, State.window, h.windowTable, h.current, h.tableFrame, h.frames _ (windowTable_isTable ht)]

theorem intact (h : Carried s s') (ht : Tables s) : Intact s s' where
  toStays := h.toStays
  words d t _ := h.tableWord d t
  frames f j hf _ := congrFun (h.frames f hf) j
  slot := by
    rw [h.frames _ (windowTable_isTable ht)]
    exact ht.windowEntry
  cache := by
    intro d hd c
    rw [h.entrycache]
    exact ht.cached d hd c
  free := h.free

theorem tables (h : Carried s s') (ht : Tables s) : Tables s' := (h.intact ht).tables ht

theorem trans (h : Carried s s') (h' : Carried s' s'') : Carried s s'' where
  toStays := h.toStays.trans h'.toStays
  frames f hf := (h'.frames f ((h.isTable f).2 hf)).trans (h.frames f hf)
  directory d := (h'.directory d).trans (h.directory d)
  entrycache d := (h'.entrycache d).trans (h.entrycache d)
  free g hg hfree := h.free g hg (h'.free g ((h.isTable g).2 hg) hfree)

end Carried

theorem setDir_carried (hdir : x.directory = (s.dirs d).directory)
    (hcache : x.entrycache = (s.dirs d).entrycache) : Carried s (s.setDir d x) :=
  ⟨⟨rfl, rfl, rfl⟩, fun _ _ => rfl, setDir_same _ hdir, setDir_same _ hcache, fun _ _ => id⟩

theorem physical_carried (h : ∀ g, IsTable s g → IsFree ph g → IsFree s.physical g) :
    Carried s { s with physical := ph } :=
  ⟨⟨rfl, rfl, rfl⟩, fun _ _ => rfl, fun _ => rfl, fun _ => rfl, h⟩

theorem zeroFrame_carried (h : ¬IsTable s f) : Carried s (s.zeroFrame f) := by
  refine ⟨⟨rfl, rfl, rfl⟩, ?_, fun _ => rfl, fun _ => rfl, fun _ _ => id⟩
  intro g hg
  have hne : g ≠ f := by
    rintro rfl
    exact h hg
  funext j
  exact if_neg hne

/-! ### Steps around a write -/

/-- The directories, the stored entries and the caches of the other directories are the same, and the
window shows what it showed or another table. -/
structure Alike (s s' : State) : Prop where
  kept : Kept s s'
  cache : ∀ d, d ≠ s.current → (s'.dirs d).entrycache = (s.dirs d).entrycache
  tableWord : ∀ d t, s'.tableWord d t = s.tableWord d t
  stored : ∀ d idx, s.live d = true → idx < 2 ^ 20 → idx ≠ s.tableFrame →
    storedEntry s' d idx = storedEntry s d idx
  shows : s'.window = s.window ∨ IsTable s s'.window

theorem Carried.alike (h : Carried s s') (hk : Kept s s') (ht : Tables s) : Alike s s' :=
  ⟨hk, fun d _ => h.entrycache d, h.tableWord, fun _ _ hd hidx _ => h.stored hd hidx, .inl (h.window ht)⟩

theorem Alike.refl (s : State) : Alike s s :=
  ⟨Kept.refl s, fun _ _ => rfl, fun _ _ => rfl, fun _ _ _ _ _ => rfl, .inl rfl⟩

theorem Alike.isTable (h : Alike s s') (f : ℕ) : IsTable s' f ↔ IsTable s f := by
  simp only [IsTable, h.kept.live, h.tableWord]

theorem Alike.trans (h : Alike s s') (h' : Alike s' s'') : Alike s s'' where
  kept := h.kept.trans h'.kept
  cache d hd := (h'.cache d (by rw [h.kept.current]; exact hd)).trans (h.cache d hd)
  tableWord d t := (h'.tableWord d t).trans (h.tableWord d t)
  stored d idx hd hidx hne := (h'.stored d idx (by rw [h.kept.live]; exact hd) hidx
    (by rw [h.kept.tableFrame]; exact hne)).trans (h.stored d idx hd hidx hne)
  shows := by
    rcases h'.shows with heq | htab
    · rw [heq]
      exact h.shows
    · exact .inr ((h.isTable _).1 htab)

theorem Alike.notCachedElsewhere (h : Alike s s')
    (hn : NotCachedElsewhere s idx e) : NotCachedElsewhere s' idx e := by
  intro hpos hk d hd hne c hc
  rw [h.kept.live] at hd
  rw [h.kept.current] at hne
  rw [h.cache d hne] at hc
  exact hn hpos hk d hd hne c hc

theorem getTableEntry_cache (s : State) (d : Pid) (idx : ℕ) (hd : d' ≠ d) :
    ((getTableEntry s d idx).2.dirs d').entrycache = (s.dirs d').entrycache := by
  have htouch : ((s.touched d idx).dirs d').entrycache = (s.dirs d').entrycache := by
    rw [State.touched, State.setCache, setDir_of_ne _ _ hd]
  by_cases hhit : (entrycacheGet (s.dirs d).entrycache idx).1 = 0
  · rw [getTableEntry_miss hhit]
    simp only [State.setCache]
    rw [setDir_of_ne _ _ hd]
    rcases mapTable_cases (s.touched d idx) d ((s.touched d idx).tableWord d (idx / 1024)) with
      h | ⟨-, -, h⟩
    · rw [h]
      exact htouch
    · rw [h, pointWindow_dirs]
      exact htouch
  · rw [getTableEntry_hit hhit]
    exact htouch

theorem Tables.getTableEntry_alike (ht : Tables s) (hidx : idx < 2 ^ 20) :
    Alike s (getTableEntry s s.current idx).2 := by
  have hq := ht.getTableEntry_quiet ht.live_current hidx
  exact ⟨hq.kept, fun d hd => getTableEntry_cache s s.current idx hd, hq.tableWord,
    fun d j hd hj hne => hq.stored ht hd hj hne, hq.shows⟩

/-- A write after a step that changes no entry.  If the write makes a table, its page was `Free` before
that step. -/
theorem Written.after (h : Written x s' idx e) (ha : Alike s x)
    (hfree : s.tableWord s.current (idx / 1024) = 0 → ∀ g, IsFree x.physical g →
      IsFree s.physical g) : Written s s' idx e where
  kept := ha.kept.trans h.kept
  cache d hd := (h.cache d (by rw [ha.kept.current]; exact hd)).trans (ha.cache d hd)
  word := by
    rw [← ha.kept.current]
    exact h.word
  words := by
    intro d u
    rcases h.words d u with hw | ⟨rfl, rfl, h0, hf⟩
    · exact .inl (hw.trans (ha.tableWord d u))
    · rw [ha.tableWord, ha.kept.current] at h0
      exact .inr ⟨ha.kept.current, rfl, by rw [ha.kept.current]; exact h0, hfree h0 _ hf⟩
  shows := h.shows
  hit d hd hs := h.hit d (by rw [ha.kept.live]; exact hd) hs
  other d j hd hj hne hnot := (h.other d j (by rw [ha.kept.live]; exact hd) hj
    (by rw [ha.kept.tableFrame]; exact hne) hnot).trans (ha.stored d j hd hj hne)

theorem Written.before (h : Written s x idx e) (hc : Carried x s')
    (hk : Kept x s') (ht : Tables x) (hidx : idx < 2 ^ 20) : Written s s' idx e := by
  have hsees : ∀ d, Sees s' d idx ↔ Sees x d idx := by
    intro d
    rw [Sees, Sees, hc.tableWord, hc.current]
  refine ⟨h.kept.trans hk, ?_, ?_, ?_, ?_, ?_, ?_⟩
  · intro d hd
    rw [hc.entrycache]
    exact h.cache d hd
  · rw [hc.tableWord]
    exact h.word
  · intro d u
    rw [hc.tableWord]
    exact h.words d u
  · rw [hc.isTable, hc.window ht]
    exact h.shows
  · intro d hd hs
    rw [hc.stored (by rw [h.kept.live]; exact hd) hidx]
    exact h.hit d hd ((hsees d).1 hs)
  · intro d j hd hj hne hnot
    rw [hc.stored (by rw [h.kept.live]; exact hd) hj]
    exact h.other d j hd hj hne fun hh => hnot ⟨hh.1, (hsees d).2 hh.2⟩

/-! ### Counters and hints -/

structure Noted (s s' : State) : Prop where
  rest : s' = { s with dirs := s'.dirs, kpages := s'.kpages }
  dirs : ∀ d, s'.dirs d = { s.dirs d with
    klowfree := (s'.dirs d).klowfree, ulowfree := (s'.dirs d).ulowfree, upages := (s'.dirs d).upages }

theorem noted_kpages (s : State) (m : ℕ) : Noted s { s with kpages := m } := ⟨rfl, fun _ => rfl⟩

theorem noted_setDir (h : x = { s.dirs d with
    klowfree := x.klowfree, ulowfree := x.ulowfree, upages := x.upages }) : Noted s (s.setDir d x) := by
  refine ⟨rfl, fun d' => ?_⟩
  by_cases hd : d' = d
  · subst hd
    rwa [setDir_self]
  · rw [setDir_of_ne _ _ hd]

theorem count_noted (s : State) (addr : ℕ) (f : ℕ → ℕ) : Noted s (s.count addr f) := by
  unfold State.count
  split
  · exact noted_setDir rfl
  · exact noted_kpages s _

theorem lowerHint_noted (s : State) (pageno : ℕ) : Noted s (lowerHint s pageno) := by
  simp only [lowerHint]
  split
  · exact noted_setDir rfl
  · split
    · exact noted_setDir rfl
    · exact noted_kpages s _

theorem raiseHint_noted (s : State) (pages pageno : ℕ) (mode : AllocMode) :
    Noted s (raiseHint s pages pageno mode) := by
  unfold raiseHint
  split
  · cases mode with
    | kernel | userlow => exact noted_setDir rfl
    | userhigh => exact noted_kpages s _
  · exact noted_kpages s _

theorem Noted.physical (h : Noted s s') : s'.physical = s.physical := by rw [h.rest]

theorem Noted.kept (h : Noted s s') : Kept s s' := by
  refine ⟨⟨?_, ?_, ?_⟩, ?_, ?_, ?_, ?_, ?_, ?_, fun d => ?_, fun d => ?_, fun d => ?_⟩
  all_goals first | rw [h.dirs d] | rw [h.rest]

theorem Noted.carried (h : Noted s s') : Carried s s' := by
  refine ⟨h.kept.toStays, fun _ _ => ?_, fun d => ?_, fun d => ?_, fun _ _ hfree => h.physical ▸ hfree⟩
  all_goals first | rw [h.dirs d] | rw [h.rest]

end Btos.Kernel.Mm2
