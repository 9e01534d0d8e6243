import Btos.Kernel.Mm2.Effects

/-!
# What the operations do to the entries, turn by turn

* `mapPageAt_spec`, `mapNewPageAt_spec`, `freeTurn_spec`, `guardPageAt_spec` — **one entry is
  written**, and what has become of the physical pages.

What is asked for is that no *other* directory remembers an entry of the kernel half that changes
(`NotCachedElsewhere`).
-/

namespace Btos.Kernel.Mm2

open Lib.Word Lib.Loop Option PageFlag

/-! ### Mapping a page -/

def PresentFlags (flags : ℕ) : Prop := flags < 4096 ∧ flags % 2 = 1

instance (flags : ℕ) : Decidable (PresentFlags flags) :=
  inferInstanceAs (Decidable (flags < 4096 ∧ flags % 2 = 1))

theorem userFlags_present : PresentFlags userFlags := by decide

theorem pagesAtFlags_present (baseaddr : ℕ) : PresentFlags (pagesAtFlags baseaddr) := by
  unfold pagesAtFlags
  split <;> decide

theorem PresentFlags.present (h : PresentFlags flags) (hp : page % 4096 = 0) :
    Mm2.present (page ||| flags) = true := by
  rw [present_or hp h.1, h.2]
  rfl

variable {s s' : State}

/-- **`map_page_at` with a page writes one entry.** -/
theorem mapPageAt_spec (ht : Tables s) (haddr : addr < 2 ^ 32)
    (hF : addr / 4096 ≠ s.tableFrame) (hpage : page % 4096 = 0) (hflags : PresentFlags flags)
    (hother : NotCachedElsewhere s (addr / 4096) (page ||| flags)) (h : mapPageAt s addr page flags = some s') :
    Tables s' ∧ Written s s' (addr / 4096) (page ||| flags) ∧
      ∀ g, IsFree s'.physical g → IsFree s.physical g := by
  obtain ⟨x, hx, rfl⟩ := map_eq_some_iff.1 h
  have hpres := hflags.present hpage
  have hidx : addr / 4096 < 2 ^ 20 := by omega
  obtain ⟨htx, hw, hfree⟩ := setTableEntry_spec ht hidx hF (.inr (.inl hpres))
    (fun _ => ne_zero_of_present hpres) hother hx
  have hn := count_noted x addr (add32 · 1)
  refine ⟨hn.carried.tables htx, hw.before hn.carried hn.kept htx hidx, ?_⟩
  rw [hn.physical]
  exact hfree

/-- A page that is taken is no table, and making it `InUse` is not noticed. -/
theorem Allocated.carried (h : Allocated s.physical f ph) : Carried s { s with physical := ph } :=
  physical_carried fun g _ hg => ((h.free_iff g).1 hg).1

theorem Allocated.not_isTable (h : Allocated s.physical f ph) (ht : Tables s) : ¬IsTable s f := by
  rintro ⟨d, t, hd, htlt, hw, rfl⟩
  exact ht.inUse d t hd htlt hw h.wasFree

theorem Written.not_isTable (h : Written s s' idx e) (hf : ¬IsFree s.physical f)
    (hn : ¬IsTable s f) : ¬IsTable s' f := by
  rintro ⟨d, t, hd, htlt, hw, rfl⟩
  rw [h.kept.live] at hd
  rcases h.words d t with heq | ⟨-, -, -, hfree⟩
  · rw [heq] at hw hn
    exact hn ⟨d, t, hd, htlt, hw, rfl⟩
  · exact hf hfree

theorem physical_kept (s : State) (ph : Physical) : Kept s { s with physical := ph } :=
  ⟨⟨rfl, rfl, rfl⟩, rfl, rfl, rfl, rfl, rfl, rfl, fun _ => rfl, fun _ => rfl, fun _ => rfl⟩

theorem zeroFrame_kept (s : State) (f : ℕ) : Kept s (s.zeroFrame f) :=
  ⟨⟨rfl, rfl, rfl⟩, rfl, rfl, rfl, rfl, rfl, rfl, fun _ => rfl, fun _ => rfl, fun _ => rfl⟩

/-- `s'` is `s` with the page `f`, which was `Free`, mapped at page `idx`. -/
structure NewPage (s s' : State) (idx f flags : ℕ) : Prop where
  written : Written s s' idx (f ||| flags)
  free : ∀ g, IsFree s'.physical g → IsFree s.physical g ∧ g ≠ f
  wasFree : IsFree s.physical f
  aligned : f % 4096 = 0
  pos : 0 < f
  lt : f < 2 ^ 32
  not_isTable : ¬IsTable s' f

/-- **`map_page_at` without a page maps a `Free` one.** -/
theorem mapNewPageAt_spec (ht : Tables s) (haddr : addr < 2 ^ 32)
    (hF : addr / 4096 ≠ s.tableFrame) (hflags : PresentFlags flags)
    (hother : ∀ e, NotCachedElsewhere s (addr / 4096) e) (h : mapNewPageAt s addr flags = some s') :
    Tables s' ∧ ∃ f, NewPage s s' (addr / 4096) f flags := by
  obtain ⟨⟨f, ph⟩, halloc, h⟩ := bind_eq_some_iff.1 h
  obtain ⟨x, hx, hclear⟩ := bind_eq_some_iff.1 h
  have ha := physicalAlloc_spec halloc
  have hpage : addressOf addr / 4096 = addr / 4096 := addressOf_div haddr
  have hidx : addr / 4096 < 2 ^ 20 := by omega
  have hc := ha.carried
  have halike := hc.alike (physical_kept s ph) ht
  obtain ⟨htx, hw, hfree⟩ := mapPageAt_spec (hc.tables ht) (addressOf_lt addr)
    (by rw [hpage]; exact hF) ha.aligned hflags
    (by rw [hpage]; exact halike.notCachedElsewhere (hother _)) hx
  rw [hpage] at hw
  have hnf : ¬IsFree ph f := fun hf => ((ha.free_iff f).1 hf).2 rfl
  have hnot : ¬IsTable x f :=
    hw.not_isTable hnf fun hf => ha.not_isTable ht ((hc.isTable f).1 hf)
  -- the page that is cleared is the one just mapped
  have hentry : storedEntry x x.current (addressOf addr / pageSize) = f ||| flags := by
    show storedEntry x x.current (addressOf addr / 4096) = _
    rw [hpage, hw.kept.current]
    exact hw.stored_current (hc.tables ht)
  simp only [clearPage, hentry, if_pos (hflags.present ha.aligned),
    addressOf_or ha.aligned ha.lt hflags.1] at hclear
  cases hclear
  have hz := zeroFrame_carried hnot
  refine ⟨hz.tables htx, f, ?_, ?_, ha.wasFree, ha.aligned, ha.pos, ha.lt, ?_⟩
  · refine (hw.before hz (zeroFrame_kept x f) htx hidx).after halike ?_
    intro _ g hg
    exact ((ha.free_iff g).1 hg).1
  · intro g hg
    exact (ha.free_iff g).1 (hfree g hg)
  · exact hnot

/-! ### Freeing a page -/

theorem pageAddr_lt (addr i : ℕ) : pageAddr addr i < 2 ^ 32 := add32_lt _ _

/-- What a turn of `free_pages` asks for: the page is neither the window's nor page 0, no other
directory remembers it, and what is released is no page table and no directory. -/
structure FreeTurnOk (s : State) (idx : ℕ) : Prop where
  not_window : idx ≠ s.tableFrame
  not_null : idx ≠ 0
  not_cached : NotCachedElsewhere s idx 0
  not_table : present (storedEntry s s.current idx) = true →
    ¬IsTable s (addressOf (storedEntry s s.current idx))
  not_directory : present (storedEntry s s.current idx) = true → ∀ d, s.live d = true →
    addressOf (storedEntry s s.current idx) ≠ (s.dirs d).directoryPhysical

theorem releaseEntry_eq (s : State) (e : ℕ) :
    releaseEntry s e = { s with physical := (releaseEntry s e).physical } := by
  unfold releaseEntry
  split <;> rfl

theorem releaseEntry_free (h : IsFree (releaseEntry s e).physical g) :
    IsFree s.physical g ∨ (present e = true ∧ g = addressOf e) := by
  unfold releaseEntry at h
  split at h
  · rename_i hp
    rcases physicalFree_spec h with hf | hg
    · exact .inl hf
    · exact .inr ⟨hp, hg.trans (addressOf_addressOf e)⟩
  · exact .inl h

theorem releaseEntry_carried (h : present e = true → ¬IsTable s (addressOf e)) : Carried s (releaseEntry s e) := by
  rw [releaseEntry_eq]
  refine physical_carried fun g hg hfree => (releaseEntry_free hfree).resolve_right ?_
  rintro ⟨hp, rfl⟩
  exact h hp hg

theorem releaseEntry_kept (s : State) (e : ℕ) : Kept s (releaseEntry s e) := by
  rw [releaseEntry_eq]
  exact physical_kept s _

/-- The entry of page `idx` is replaced, and at most the page that was there becomes `Free`. -/
structure Replaced (s s' : State) (idx e : ℕ) : Prop where
  written : Written s s' idx e
  free : ∀ g, IsFree s'.physical g → IsFree s.physical g ∨
    (present (storedEntry s s.current idx) = true ∧ g = addressOf (storedEntry s s.current idx))

/-- **One turn of `free_pages` replaces an entry by 0.** -/
theorem freeTurn_spec (ht : Tables s) (hok : FreeTurnOk s (pageAddr addr i / 4096))
    (h : freeTurn addr i s = some s') : Tables s' ∧ Replaced s s' (pageAddr addr i / 4096) 0 := by
  have haddr := pageAddr_lt addr i
  simp only [freeTurn, pageSize] at h
  generalize pageAddr addr i = a at h hok haddr ⊢
  have hidx : a / 4096 < 2 ^ 20 := by omega
  -- the hint
  have hn1 := lowerHint_noted s (a / 4096)
  have hc1 := hn1.carried
  have ha1 := hc1.alike hn1.kept ht
  have hph1 := hn1.physical
  have ht1 := hc1.tables ht
  generalize lowerHint s (a / 4096) = s1 at h hc1 ha1 hph1 ht1
  -- the look at the entry
  have hq := ht1.getTableEntry_quiet ht1.live_current hidx
  have ha2 := ha1.trans (ht1.getTableEntry_alike hidx)
  have hval : (getTableEntry s1 s1.current (a / 4096)).1 = storedEntry s s.current (a / 4096) := by
    rw [ht1.getTableEntry_eq ht1.live_current ht1.windowed hidx
      (by rw [hc1.tableFrame]; exact hok.not_window), hc1.current, hc1.stored ht.live_current hidx]
  have ht2 := ht1.quiet hq
  have hph2 : (getTableEntry s1 s1.current (a / 4096)).2.physical = s.physical :=
    hq.physical.trans hph1
  rw [hval] at h
  generalize (getTableEntry s1 s1.current (a / 4096)).2 = s2 at h ha2 ht2 hph2
  -- the release
  have hc3 : Carried s2 (releaseEntry s2 (storedEntry s s.current (a / 4096))) :=
    releaseEntry_carried fun hp hg => hok.not_table hp ((ha2.isTable _).1 hg)
  have ha3 := ha2.trans (hc3.alike (releaseEntry_kept s2 _) ht2)
  have hfree3 : ∀ g, IsFree (releaseEntry s2 (storedEntry s s.current (a / 4096))).physical g →
      IsFree s.physical g ∨ (present (storedEntry s s.current (a / 4096)) = true ∧
        g = addressOf (storedEntry s s.current (a / 4096))) := by
    intro g hg
    rw [← hph2]
    exact releaseEntry_free hg
  have ht3 := hc3.tables ht2
  generalize releaseEntry s2 (storedEntry s s.current (a / 4096)) = s3 at h ha3 ht3 hfree3
  -- the write
  obtain ⟨x, hx, rfl⟩ := map_eq_some_iff.1 h
  rw [hc1.current, ← ha3.kept.current] at hx
  obtain ⟨htx, hw, hfree⟩ := setTableEntry_spec ht3 hidx
    (by rw [ha3.kept.tableFrame]; exact hok.not_window) (.inl rfl)
    (fun h0 => absurd h0 hok.not_null) (ha3.notCachedElsewhere hok.not_cached) hx
  have hn := count_noted x a (sub32 · 1)
  refine ⟨hn.carried.tables htx, (hw.before hn.carried hn.kept htx hidx).after ha3 ?_, ?_⟩
  · intro h0 g hg
    refine (hfree3 g hg).resolve_right fun hp => ?_
    rw [stored_of_no_word h0] at hp
    exact absurd hp.1 (by decide)
  · intro g hg
    rw [hn.physical] at hg
    exact hfree3 g (hfree g hg)

theorem Written.notCachedElsewhere (h : Written s s' idx e)
    (hn : NotCachedElsewhere s j e') : NotCachedElsewhere s' j e' := by
  intro hpos hk d hd hne c hc
  rw [h.kept.live] at hd
  rw [h.kept.current] at hne
  rw [h.cache d hne] at hc
  exact hn hpos hk d hd hne c hc

theorem Tables.notCachedElsewhere (ht : Tables s) (hF : idx ≠ s.tableFrame)
    (h : storedEntry s s.current idx = 0 ∨ storedEntry s s.current idx = e) : NotCachedElsewhere s idx e := by
  intro hpos hk d hd _ c hc hi
  by_cases h0 : c.entry = 0
  · exact .inl h0
  · subst hi
    obtain ⟨-, -, heq⟩ := (ht.cached d hd c hc h0 (Nat.ne_of_gt hpos)).resolve_left fun hw => hF hw.1
    have hsame : storedEntry s d c.index = storedEntry s s.current c.index := by
      rw [storedEntry, storedEntry, ht.shared d _ hd (kernel_table_iff.2 hk) (word_of_stored (heq ▸ h0))]
    rw [heq, hsame]
    exact h

/-! ### Guard pages -/

theorem Written.overwrite (h : Written s x idx e) (h' : Written x s' idx e') : Written s s' idx e' := by
  have hwords : ∀ d u, s'.tableWord d u = x.tableWord d u := by
    intro d u
    rcases h'.words d u with hw | ⟨rfl, rfl, h0, -⟩
    · exact hw
    · rw [h.kept.current] at h0
      exact absurd h0 h.word
  have hsees : ∀ d, Sees s' d idx ↔ Sees x d idx := by
    intro d
    rw [Sees, Sees, hwords, h'.kept.current]
  refine ⟨h.kept.trans h'.kept, ?_, ?_, ?_, h'.shows, ?_, ?_⟩
  · intro d hd
    rw [h'.cache d (by rw [h.kept.current]; exact hd), h.cache d hd]
  · rw [hwords]
    exact h.word
  · intro d u
    rw [hwords]
    exact h.words d u
  · intro d hd hs
    exact h'.hit d (by rw [h.kept.live]; exact hd) hs
  · intro d j hd hj hne hnot
    rw [h'.other d j (by rw [h.kept.live]; exact hd) hj (by rw [h.kept.tableFrame]; exact hne) hnot]
    exact h.other d j hd hj hne fun hh => hnot ⟨hh.1, (hsees d).2 hh.2⟩

theorem EntryOk.guard (h : EntryOk e) (hp : present e = false) :
    (e = 0 ∨ e = guardPage) ∧ e ||| guardPage = guardPage := by
  rcases h with rfl | hpres | rfl
  · exact ⟨.inl rfl, rfl⟩
  · rw [hp] at hpres
    cases hpres
  · exact ⟨.inr rfl, rfl⟩

theorem Tables.stored_window (ht : Tables s) : present (storedEntry s s.current s.tableFrame) = true := by
  have hlt : s.tableFrame < 2 ^ 20 := Nat.lt_trans ht.frame_lt (by decide)
  rw [ht.stored_of_word ht.live_current hlt ht.windowed]
  exact ht.windowEntry

/-- The write of `guard_page_at`, where the entry is not present. -/
theorem guardEntry_spec (ht : Tables s) (hidx : idx < 2 ^ 20)
    (hnp : present (getTableEntry s s.current idx).1 = false)
    (h : setTableEntry (getTableEntry s s.current idx).2 s.current idx ((getTableEntry s s.current idx).1 ||| guardPage) = some s')
    : Tables s' ∧ Written s s' idx guardPage ∧ ∀ g, IsFree s'.physical g → IsFree s.physical g := by
  have hF : idx ≠ s.tableFrame := by
    rintro rfl
    rw [ht.getTableEntry_window ht.live_current ht.windowed] at hnp
    cases hnp
  have hval := ht.getTableEntry_eq ht.live_current ht.windowed hidx hF
  have hq := ht.getTableEntry_quiet ht.live_current hidx
  have ha := ht.getTableEntry_alike hidx
  rw [hval] at h hnp
  obtain ⟨hcase, hguard⟩ := (ht.entries _ idx ht.live_current hidx hF).guard hnp
  rw [hguard] at h
  generalize (getTableEntry s s.current idx).2 = x at h hq ha
  rw [← hq.current] at h
  obtain ⟨hts, hw, hfree⟩ := setTableEntry_spec (ht.quiet hq) hidx
    (by rw [hq.tableFrame]; exact hF) (.inr (.inr rfl)) (fun _ => by decide)
    (ha.notCachedElsewhere (ht.notCachedElsewhere hF hcase)) h
  rw [hq.physical] at hfree
  refine ⟨hts, hw.after ha fun _ g hg => ?_, hfree⟩
  rwa [hq.physical] at hg

theorem FreeTurnOk.alike (h : FreeTurnOk s idx) (ha : Alike s x)
    (ht : Tables s) (hidx : idx < 2 ^ 20) : FreeTurnOk x idx := by
  have hstored : storedEntry x x.current idx = storedEntry s s.current idx := by
    rw [ha.kept.current]
    exact ha.stored _ _ ht.live_current hidx h.not_window
  refine ⟨by rw [ha.kept.tableFrame]; exact h.not_window, h.not_null,
    ha.notCachedElsewhere h.not_cached, ?_, ?_⟩
  · rw [hstored, ha.isTable]
    exact h.not_table
  · intro hp d hd
    rw [hstored] at hp ⊢
    rw [ha.kept.directoryPhysical]
    exact h.not_directory hp d (by rw [← ha.kept.live]; exact hd)

theorem pageAddr_zero (h : addr < 2 ^ 32) : pageAddr addr 0 = addr := by
  rw [pageAddr, mul32]
  exact add32_of_lt h

/-- What `guard_page_at` asks for, where it frees: with a scheduler it does not return then. -/
def GuardOk (s : State) (idx : ℕ) : Prop :=
  s.schedulerReady = false → present (storedEntry s s.current idx) = true → FreeTurnOk s idx

/-- **`guard_page_at` replaces an entry by that of a guard page.** -/
theorem guardPageAt_spec (ht : Tables s) (hptr : ptr < 2 ^ 32) (hok : GuardOk s (ptr / 4096))
    (h : guardPageAt s ptr = some s') : Tables s' ∧ Replaced s s' (ptr / 4096) guardPage := by
  have hidx : ptr / 4096 < 2 ^ 20 := by omega
  simp only [guardPageAt] at h
  split at h
  · rename_i hp
    change present (getTableEntry s s.current (ptr / 4096)).1 = true at hp
    obtain ⟨hready, h⟩ := ite_none_left_eq_some.1 h
    have hstored : present (storedEntry s s.current (ptr / 4096)) = true := by
      by_cases hF : ptr / 4096 = s.tableFrame
      · rw [hF]
        exact ht.stored_window
      · rwa [ht.getTableEntry_eq ht.live_current ht.windowed hidx hF] at hp
    have hfreeOk := hok (by simpa using hready) hstored
    have hq := ht.getTableEntry_quiet ht.live_current hidx
    have ha := ht.getTableEntry_alike hidx
    change (freePages (getTableEntry s s.current (ptr / 4096)).2 ptr 1).bind _ = _ at h
    generalize (getTableEntry s s.current (ptr / 4096)).2 = x at h hq ha
    obtain ⟨y, hy, hg⟩ := bind_eq_some_iff.1 h
    have hturn : freeTurn ptr 0 x = some y := hy
    have htx := ht.quiet hq
    have hokx := hfreeOk.alike ha ht hidx
    rw [← pageAddr_zero hptr] at hokx
    obtain ⟨hty, hreplaced⟩ := freeTurn_spec htx hokx hturn
    rw [pageAddr_zero hptr] at hreplaced
    obtain ⟨hwy, hfree⟩ := hreplaced
    have hFy : ptr / 4096 ≠ y.tableFrame := by
      rw [hwy.kept.tableFrame, hq.tableFrame]
      exact hfreeOk.not_window
    have hzero : (getTableEntry y y.current (ptr / 4096)).1 = 0 := by
      rw [hty.getTableEntry_eq hty.live_current hty.windowed hidx hFy, hwy.kept.current]
      exact hwy.stored_current htx
    obtain ⟨hts, hw, hfree'⟩ := guardEntry_spec hty hidx (by rw [hzero]; rfl) hg
    have hsx : storedEntry x x.current (ptr / 4096) = storedEntry s s.current (ptr / 4096) := by
      rw [hq.current]
      exact ha.stored _ _ ht.live_current hidx hfreeOk.not_window
    rw [hsx, hq.physical] at hfree
    refine ⟨hts, (hwy.overwrite hw).after ha fun _ g hg => ?_, fun g hg => hfree g (hfree' g hg)⟩
    rwa [hq.physical] at hg
  · rename_i hp
    obtain ⟨hts, hw, hfree⟩ := guardEntry_spec ht hidx (eq_false_of_ne_true hp) h
    exact ⟨hts, hw, fun g hg => .inl (hfree g hg)⟩

end Btos.Kernel.Mm2
