import Btos.Kernel.Mm2.FrameOps

/-!
# Destroying a directory

`~PageDirectory` shows each table of its user half in the window, frees what the table maps and then
the table, and last frees the page of the directory itself through the current directory.

* `Razed.intact`, `Razed.sound` — seen without `d`, the tables are intact and **what was freed is in no
  other use**.

While it runs the window shows a page that is freed; the last step shows a table again.
-/

namespace Btos.Kernel.Mm2

open Lib.Word Lib.Loop Lib.Ownership Function State

/-! ### What is freed -/

/-- A page table of the user half of `d`. -/
def OwnTable (s : State) (d : Pid) (f : ℕ) : Prop :=
  ∃ t, kernelTables ≤ t ∧ t < 1024 ∧ s.tableWord d t ≠ 0 ∧ addressOf (s.tableWord d t) = f

/-- What `d` leaves behind: its own page tables and what they map. -/
def Estate (s : State) (d : Pid) (f : ℕ) : Prop := OwnTable s d f ∨ ∃ idx, kernelPages ≤ idx ∧ Maps s d idx f

/-- `u` is `s` with tables of `d` torn down. -/
structure Razed (s u : State) (d : Pid) : Prop where
  rest : u = { s with frames := u.frames, dirs := u.dirs, physical := u.physical }
  dirs : ∀ e, e ≠ d → u.dirs e = s.dirs e
  directoryPtr : (u.dirs d).directoryPtr = (s.dirs d).directoryPtr
  words : ∀ t, u.tableWord d t = s.tableWord d t ∨ (kernelTables ≤ t ∧ u.tableWord d t = 0)
  frames : ∀ f j, ¬(f = s.windowTable s.current ∧ j = s.tableFrame % 1024) →
    u.frames f j = s.frames f j ∨ (OwnTable s d f ∧ u.frames f j = 0)
  slot : present (u.frames (s.windowTable s.current) (s.tableFrame % 1024)) = true
  free : ∀ g, IsFree u.physical g → IsFree s.physical g ∨ Estate s d g

section

variable {s u : State} {d : Pid}

theorem Tables.razed_refl (ht : Tables s) (d : Pid) : Razed s s d :=
  ⟨rfl, fun _ _ => rfl, rfl, fun _ => .inl rfl, fun _ _ _ => .inl rfl, ht.windowEntry,
    fun _ => .inl⟩

theorem OwnTable.ne_window (h : OwnTable s d f) (ht : Tables s) (hd : s.live d = true) :
    f ≠ s.windowTable s.current := by
  rintro rfl
  obtain ⟨t, hk, htlt, hw, heq⟩ := h
  have hlt := ht.windowIndex_lt
  have := (ht.apart d s.current t (s.tableFrame / 1024) hd ht.live_current htlt
    (Nat.lt_trans hlt (by decide)) hw ht.windowed heq).1
  omega

namespace Razed

section

variable (h : Razed s u d)
include h

theorem windowTable (hne : d ≠ s.current) :
    u.windowTable u.current = s.windowTable s.current := by
  have hcur : u.current = s.current := by rw [h.rest]
  have hF : u.tableFrame = s.tableFrame := by rw [h.rest]
  rw [State.windowTable, hcur, hF, State.tableWord, h.dirs _ (Ne.symm hne)]
  rfl

theorem destroyEntry (ht : Tables s) (hd : s.live d = true)
    (hne : d ≠ s.current) (hk : kernelTables ≤ t) (htlt : t < 1024) (hw : s.tableWord d t ≠ 0)
    (hf : addressOf (s.tableWord d t) = f) (hwin : u.window = f) (hj : j < 1024) :
    Razed s (Mm2.destroyEntry j u) d ∧ (Mm2.destroyEntry j u).window = f := by
  have hown : OwnTable s d f := ⟨t, hk, htlt, hw, hf⟩
  have hslot := hown.ne_window ht hd
  simp only [Mm2.destroyEntry, hwin]
  split
  · rename_i hp
    -- the entry is the one that the directory has had all along
    have hidx : (t * 1024 + j) / 1024 = t ∧ (t * 1024 + j) % 1024 = j := by omega
    have hold : u.frames f j = s.frames f j := by
      rcases h.frames f j fun hh => hslot hh.1 with heq | ⟨-, h0⟩
      · exact heq
      · rw [h0] at hp
        exact absurd hp (by decide)
    have hstored : storedEntry s d (t * 1024 + j) = u.frames f j := by
      rw [ht.stored_of_word hd (by omega) (by rw [hidx.1]; exact hw), hidx.1, hidx.2, hf, hold]
    have hF := ht.frame_lt
    have hmaps : Maps s d (t * 1024 + j) (addressOf (u.frames f j)) := by
      refine ⟨hd, by omega, ?_, by rw [hstored]; exact hp, by rw [hstored]⟩
      simp only [kernelTables, kernelPages] at *
      omega
    have huser : kernelPages ≤ t * 1024 + j := by
      simp only [kernelTables, kernelPages] at *
      omega
    have hwt := h.windowTable hne
    have hframes : ∀ g i, (u.writeWord f j 0).frames g i =
        if g = f ∧ i = j then 0 else u.frames g i := fun _ _ => rfl
    refine ⟨⟨by rw [writeWord, h.rest], h.dirs, h.directoryPtr, h.words, ?_, ?_, ?_⟩, ?_⟩
    · intro g i hgi
      show (u.writeWord f j 0).frames g i = _ ∨ _
      rw [hframes]
      split
      · rename_i heq
        exact .inr ⟨heq.1 ▸ hown, rfl⟩
      · exact h.frames g i hgi
    · show present ((u.writeWord f j 0).frames _ _) = true
      rw [hframes, if_neg fun hh => hslot hh.1.symm]
      exact h.slot
    · intro g hg
      rcases physicalFree_spec hg with hg | rfl
      · exact h.free g hg
      · rw [addressOf_addressOf]
        exact .inr (.inr ⟨_, huser, hmaps⟩)
    · show addressOf ((u.writeWord f j 0).frames (u.windowTable u.current) (u.tableFrame % 1024)) = f
      rw [hframes, if_neg fun hh => hslot (hh.1.symm.trans hwt)]
      exact hwin
  · exact ⟨h, hwin⟩

theorem destroyEntries (ht : Tables s) (hd : s.live d = true)
    (hne : d ≠ s.current) (hk : kernelTables ≤ t) (htlt : t < 1024) (hw : s.tableWord d t ≠ 0)
    (hf : addressOf (s.tableWord d t) = f) (hwin : u.window = f) (n : ℕ) (hn : n ≤ 1024) :
    Razed s (Mm2.destroyEntries u n) d ∧ (Mm2.destroyEntries u n).window = f := by
  induction n with
  | zero => exact ⟨h, hwin⟩
  | succ n ih =>
    obtain ⟨hr, hwin'⟩ := ih (by omega)
    exact hr.destroyEntry ht hd hne hk htlt hw hf hwin' (by omega)

theorem clearWord (hk : kernelTables ≤ t) (hown : OwnTable s d (addressOf f)) :
    Razed s { u.setDir d { u.dirs d with directory := update (u.dirs d).directory t 0 } with
      physical := physicalFree u.physical (addressOf f) } d := by
  refine ⟨by rw [setDir, h.rest], ?_, ?_, ?_, h.frames, h.slot, ?_⟩
  · intro e he
    show (u.setDir d _).dirs e = _
    rw [setDir_of_ne _ _ he]
    exact h.dirs e he
  · show ((u.setDir d _).dirs d).directoryPtr = _
    rw [setDir_self]
    exact h.directoryPtr
  · intro t'
    show ((u.setDir d _).dirs d).directory t' = _ ∨ (_ ∧ ((u.setDir d _).dirs d).directory t' = 0)
    rw [setDir_self]
    by_cases htt : t' = t
    · subst htt
      exact .inr ⟨hk, update_self ..⟩
    · simp only [update_of_ne htt]
      exact h.words t'
  · intro g hg
    rcases physicalFree_spec hg with hg | rfl
    · exact h.free g hg
    · rw [addressOf_addressOf]
      exact .inr (.inl hown)

/-- **A table of `d` is torn down.** -/
theorem destroyTable (ht : Tables s) (hd : s.live d = true)
    (hne : d ≠ s.current) (hk : kernelTables ≤ t) (htlt : t < 1024) : Razed s (Mm2.destroyTable d t u) d := by
  have hF : u.tableFrame = s.tableFrame := by rw [h.rest]
  simp only [Mm2.destroyTable]
  rcases mapTable_cases u d (u.tableWord d t) with hm | ⟨ha, hp, hm⟩
  · rw [hm]
    exact h
  · -- with a number for the entries that nothing can evaluate
    obtain ⟨n, hn⟩ : ∃ n, n = 1024 := ⟨_, rfl⟩
    rw [hm, ← hn]
    dsimp only
    -- the word is that of `s`, and the window of `d` is that of the current directory
    have hword : u.tableWord d t = s.tableWord d t := by
      refine (h.words t).resolve_right fun h0 => ha ?_
      rw [h0.2]
      rfl
    have hw : s.tableWord d t ≠ 0 := ne_zero_of_address (hword ▸ ha)
    have hwindow : u.windowTable d = s.windowTable s.current := by
      have hlt := ht.windowIndex_lt
      have heq := (h.words (s.tableFrame / 1024)).resolve_right fun h0 => by omega
      rw [hF, heq] at hp
      rw [← ht.windowTable_eq hd (ne_zero_of_present hp), State.windowTable, State.windowTable, hF, heq]
    have hown : OwnTable s d (addressOf (s.tableWord d t)) := ⟨t, hk, htlt, hw, rfl⟩
    have hdirs := pointWindow_dirs u d (addressOf (u.tableWord d t))
    have hframes := pointWindow_frames u d (addressOf (u.tableWord d t))
    have hx : Razed s (u.pointWindow d (addressOf (u.tableWord d t))) d := by
      refine ⟨by rw [pointWindow, setDir, writeWord, h.rest], ?_, ?_, ?_, ?_, ?_, h.free⟩
      · intro e he
        rw [pointWindow, setDir_of_ne _ _ he]
        exact h.dirs e he
      · rw [hdirs]
        exact h.directoryPtr
      · intro t'
        rw [pointWindow_tableWord]
        exact h.words t'
      · intro f j hfj
        rw [hframes, if_neg (by rw [hwindow, hF]; exact hfj)]
        exact h.frames f j hfj
      · rw [hframes, if_pos (by rw [hwindow, hF]; exact ⟨rfl, rfl⟩),
          present_or (addressOf_aligned _) (by decide)]
        rfl
    have hwin : (u.pointWindow d (addressOf (u.tableWord d t))).window = addressOf (s.tableWord d t) := by
      rw [pointWindow_window (hwindow.trans (h.windowTable hne).symm), hword]
    obtain ⟨hy, -⟩ := hx.destroyEntries ht hd hne hk htlt hw rfl hwin n (Nat.le_of_eq hn)
    exact hy.clearWord hk (by rw [hword]; exact hown)

end

end Razed

/-- **All tables of the user half of `d` are torn down.** -/
theorem destroyTables_razed (ht : Tables s) (hd : s.live d = true) (hne : d ≠ s.current) (n : ℕ)
    (hn : n ≤ 1024 - kernelTables) : Razed s (destroyTables s d n) d := by
  induction n with
  | zero => exact ht.razed_refl d
  | succ n ih =>
    refine (ih (by omega)).destroyTable ht hd hne (by omega) ?_
    omega

/-! ### Without the directory -/

/-- `d` does not exist any more. -/
def State.without (s : State) (d : Pid) : State := { s with live := update s.live d false }

theorem without_live : (s.without d).live e = true ↔ s.live e = true ∧ e ≠ d := by
  show update s.live d false e = true ↔ _
  by_cases he : e = d
  · subst he
    simp
  · simp [he]

theorem IsTable.of_without (h : IsTable (s.without d) f) : IsTable s f := by
  obtain ⟨e, t, he, htlt, hw, hf⟩ := h
  exact ⟨e, t, (without_live.1 he).1, htlt, hw, hf⟩

theorem Maps.of_without (h : Maps (s.without d) e idx f) : Maps s e idx f ∧ e ≠ d := by
  obtain ⟨he, hne⟩ := without_live.1 h.live
  exact ⟨⟨he, h.lt, h.ne, h.isPresent, h.address⟩, hne⟩

theorem Tables.without_sourced (ht : Tables s) (hne : d ≠ s.current) : Sourced s (s.without d) :=
  ⟨rfl, without_live.2 ⟨ht.live_current, Ne.symm hne⟩, fun _ _ => rfl,
    fun {e _} he _ => ⟨e, (without_live.1 he).1, rfl, .inl rfl⟩⟩

theorem Tables.without (ht : Tables s) (hne : d ≠ s.current) : Tables (s.without d) :=
  (ht.without_sourced hne).tables ht (fun _ _ => id) (fun e idx he => ht.entries e idx (without_live.1 he).1)
    ht.windowEntry (fun e he => ht.cached e (without_live.1 he).1) ht.null

theorem Estate.not_isTable (h : Estate s d f) (ht : Tables s) (hv : (view s).Sound)
    (hd : s.live d = true) : ¬IsTable (s.without d) f := by
  intro htab
  rcases h with ⟨t, hk, htlt, hw, rfl⟩ | ⟨idx, huser, hm⟩
  · obtain ⟨e, t', he, htlt', hw', heq⟩ := htab
    obtain ⟨he, hed⟩ := without_live.1 he
    obtain ⟨rfl, hcase⟩ := ht.apart e d t' t he hd htlt' htlt hw' hw heq
    rcases hcase with rfl | hlt
    · exact hed rfl
    · omega
  · refine hv.allowed _ f ⟨d, idx, rfl, hm⟩ (.inr ⟨?_, htab.of_without⟩)
    rw [slot_user d huser]
    exact Option.some_ne_none d

/-- `d` maps no page of a space. -/
def MapsNoShared (s : State) (d : Pid) : Prop :=
  ∀ idx f, kernelPages ≤ idx → Maps s d idx f → ∀ a, ¬InSpace s a f

theorem Estate.unused (h : Estate s d f) (hv : (view s).Sound) (hd : s.live d = true) (hns : MapsNoShared s d) :
    (∀ e idx, ¬Maps (s.without d) e idx f) ∧ ∀ a, ¬InSpace (s.without d) a f := by
  rcases h with ⟨t, hk, htlt, hw, hf⟩ | ⟨idx, huser, hm⟩
  · have hut : UserTable s f := ⟨d, t, hd, hk, htlt, hw, hf⟩
    refine ⟨fun e idx hmaps => ?_, fun a ha => ?_⟩
    · exact hv.allowed _ f ⟨e, idx, rfl, hmaps.of_without.1⟩ (.inl hut)
    · exact hv.member_allowed a f (none, 0) ha (.inl hut)
  · refine ⟨fun e j hmaps => ?_, hns idx f huser hm⟩
    obtain ⟨hold, hed⟩ := hmaps.of_without
    rcases hv.exclusive _ _ f ⟨e, j, rfl, hold⟩ ⟨d, idx, rfl, hm⟩ with heq | ⟨a, ha⟩
    · obtain ⟨rfl, hcase⟩ := slot_inj heq
      rcases hcase with rfl | hlt
      · exact hed rfl
      · omega
    · exact hns idx f huser hm a ha

/-- **The tables of the other directories are intact.** -/
theorem Razed.intact (h : Razed s u d) (ht : Tables s) (hv : (view s).Sound) (hd : s.live d = true)
    (hne : d ≠ s.current) : Intact (s.without d) (u.without d) where
  live := by rw [without, without, h.rest]
  current := by rw [without, without, h.rest]
  tableFrame := by rw [without, without, h.rest]
  words e t he := by
    show (u.dirs e).directory t = (s.dirs e).directory t
    rw [h.dirs e (without_live.1 he).2]
  frames f j hf hslot := by
    rcases h.frames f j hslot with heq | ⟨hown, -⟩
    · exact heq
    · exact absurd hf (Estate.not_isTable (.inl hown) ht hv hd)
  slot := h.slot
  cache e he c hc := by
    have hc' : c ∈ (u.dirs e).entrycache := hc
    rw [h.dirs e (without_live.1 he).2] at hc'
    exact (ht.without hne).cached e he c hc'
  free g hg hfree := (h.free g hfree).resolve_right fun hes => hes.not_isTable ht hv hd hg

/-- **What was freed is in no other use.** -/
theorem Razed.sound (h : Razed s u d) (ht : Tables s) (hv : (view s).Sound) (hd : s.live d = true)
    (hne : d ≠ s.current) (hns : MapsNoShared s d) : (view (u.without d)).Sound := by
  have hspaces : u.spaces = s.spaces := by rw [h.rest]
  have hmappings : u.mappings = s.mappings := by rw [h.rest]
  have hwithout := (ht.without_sourced hne).sound hv (fun {e _ _} hm => ⟨e, rfl, hm.of_without.1⟩) (fun _ => .inl)
    (fun _ _ => Iff.rfl) fun _ _ => id
  refine (h.intact ht hv hd hne).sound (ht.without hne) hwithout ?_ ?_ ?_
  · intro f hf
    exact (h.free f hf).imp_right fun hes => hes.unused hv hd hns
  · intro a f
    show (∃ x ∈ u.spaces, _) ↔ ∃ x ∈ s.spaces, _
    rw [hspaces]
  · intro p a
    show (∃ x ∈ s.mappings, _) → ∃ x ∈ u.mappings, _
    rw [hmappings]
    exact id

theorem Razed.books (h : Razed s u d) (hb : Books s) (hk : d ≠ kernelPid) : Books (u.without d) := by
  refine hb.sub (without_live.2 ⟨by rw [h.rest]; exact hb.kernel_live, Ne.symm hk⟩) ?_ ?_ ?_
    (by rw [without, h.rest]) (by rw [without, h.rest])
  · intro e he r hr
    obtain ⟨he, hed⟩ := without_live.1 he
    have hr' : r ∈ (u.dirs e).regions := hr
    rw [h.dirs e hed] at hr'
    rw [h.rest] at he
    exact ⟨he, hr'⟩
  · rw [h.rest]
    exact fun _ => id
  · rw [h.rest]
    exact fun _ => id

/-! ### The page of the directory -/

/-- What the destructor asks for: `d` maps no page of a space, and the page that holds the directory
can be freed through the current one. -/
structure DestroyOk (s : State) (d : Pid) : Prop where
  maps_no_shared : MapsNoShared s d
  free_turn : FreeTurnOk (s.without d) (pageAddr (s.dirs d).directoryPtr 0 / 4096)
  not_shared : NotShared s (pageAddr (s.dirs d).directoryPtr 0 / 4096)

theorem Razed.stored (h : Razed s u d) (ht : Tables s) (hv : (view s).Sound) (hd : s.live d = true)
    (hne : d ≠ s.current) (hidx : idx < 2 ^ 20) (hF : idx ≠ s.tableFrame) :
    storedEntry (u.without d) (u.without d).current idx = storedEntry s s.current idx := by
  have hin := h.intact ht hv hd hne
  rw [hin.current]
  exact hin.stored (ht.without hne) (ht.without hne).live_current hidx hF

theorem FreeTurnOk.razed (hok : FreeTurnOk (s.without d) idx) (h : Razed s u d)
    (ht : Tables s) (hv : (view s).Sound) (hd : s.live d = true) (hne : d ≠ s.current)
    (hidx : idx < 2 ^ 20) : FreeTurnOk (u.without d) idx := by
  have hin := h.intact ht hv hd hne
  have hst := h.stored ht hv hd hne hidx hok.not_window
  have hdirs : ∀ e, (u.without d).live e = true → (u.without d).dirs e = s.dirs e := fun e he =>
    h.dirs e (without_live.1 he).2
  refine ⟨?_, hok.not_null, ?_, ?_, ?_⟩
  · rw [hin.tableFrame]
    exact hok.not_window
  · intro hpos hk e he hcur
    rw [hdirs e he]
    rw [hin.live] at he
    rw [hin.current] at hcur
    exact hok.not_cached hpos hk e he hcur
  · rw [hst, hin.isTable]
    exact hok.not_table
  · rw [hst]
    intro hp e he
    rw [hdirs e he]
    rw [hin.live] at he
    exact hok.not_directory hp e he

/-- **`~PageDirectory`.** -/
theorem destroyDirectory_owned (ht : Tables s) (ho : Owned s) (hok : DestroyOk s d)
    (h : destroyDirectory s d = some s') : Tables s' ∧ Owned s' := by
  obtain ⟨hcond, h⟩ := Option.ite_none_left_eq_some.1 h
  simp only [not_or] at hcond
  obtain ⟨hne, hk, hd⟩ := hcond
  have hd : s.live d = true := eq_true_of_ne_false hd
  obtain ⟨n, hn⟩ : ∃ n, n = 1024 - kernelTables := ⟨_, rfl⟩
  have hr := destroyTables_razed ht hd hne n (Nat.le_of_eq hn)
  rw [← hn] at h
  dsimp only at h
  generalize destroyTables s d n = u at h hr
  rw [hr.directoryPtr] at h
  obtain ⟨y, hy, h⟩ := turns_succ (show turns _ 1 (u.without d) = some s' from h)
  cases hy
  -- one turn of `free_pages`, in a state whose window shows a page that is freed
  have hlt := pageAddr_lt (s.dirs d).directoryPtr 0
  have hidx : pageAddr (s.dirs d).directoryPtr 0 / 4096 < 2 ^ 20 := by omega
  have hF := hok.free_turn.not_window
  have htu := (hr.intact ht ho.sound hd hne).tables (ht.without hne)
  have hst := hr.stored ht ho.sound hd hne hidx hF
  have hfree := hok.free_turn.razed hr ht ho.sound hd hne hidx
  obtain ⟨hts, hrep⟩ := freeTurn_spec htu hfree h
  refine ⟨hts, hrep.owned rfl htu hidx hfree.not_window ?_
    (hr.sound ht ho.sound hd hne hok.maps_no_shared) (hr.books ho.books hk)⟩
  intro hp a ha
  rw [hst] at hp ha
  obtain ⟨x, hx, hxa⟩ := ha
  have hspaces : u.spaces = s.spaces := by rw [hr.rest]
  exact hok.not_shared hp a ⟨x, hspaces ▸ hx, hxa⟩

end

end Btos.Kernel.Mm2
