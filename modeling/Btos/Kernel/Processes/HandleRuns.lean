import Btos.Kernel.Processes.Handles

/-!
# Sequences of calls on the handles of a process

Adding, looking up and closing, with requests that wait for a dependency.  A call that closes a handle goes once
through the requests, before it closes the objects.

* `find_scanPending`, `live_scanPending`, `scanPending_free` — **the loop over the pending requests**: what it
  takes out of the table it closes, and every request it leaves has a dependency;
* `AddOk` — **the condition on `AddHandle`**: the number is not in use (the counter has 32 bits).
-/

namespace Btos.Kernel.Processes.Handles

open Util List Option HandleTable
open Lib.Transition

/-! ### Closing -/

namespace Register

theorem foldl_remove (l : List ℕ) (r : Register) : l.foldl removeHandleDependencyOn r =
      { r with handlesWithDependencies := r.handlesWithDependencies.diff l } := by
  induction l generalizing r with
  | nil => simp
  | cons o l ih => simp [ih, removeHandleDependencyOn, diff_cons]

theorem close_eq (K : Kinds) (r : Register) (o : ℕ) : r.close K o =
      ⟨r.handlesWithDependencies.diff (K.release o), r.closings ++ [⟨o, r.depends o⟩]⟩ := by
  simp [close, foldl_remove]

/-- **What is closed is on record.** -/
theorem closed_closeAll (K : Kinds) (os : List ℕ) (r : Register) :
    (r.closeAll K os).closed = r.closed ++ os := by
  induction os generalizing r with
  | nil => simp [closeAll]
  | cons o os ih =>
    have h := ih (r.close K o)
    simp only [closeAll, foldl_cons] at h ⊢
    rw [h, close_eq]
    simp [closed]

theorem dependencies_closeAll (K : Kinds) (os : List ℕ) (r : Register) :
    (r.closeAll K os).handlesWithDependencies = r.handlesWithDependencies.diff (os.flatMap K.release) := by
  induction os generalizing r with
  | nil => simp [closeAll]
  | cons o os ih =>
    have h := ih (r.close K o)
    simp only [closeAll, foldl_cons] at h ⊢
    rw [h, close_eq, flatMap_cons, diff_append]

theorem depends_close {K : Kinds} {r : Register} {o x : ℕ} (h : r.depends x = false) :
    (r.close K o).depends x = false := by
  simp only [depends, decide_eq_false_iff_not, close_eq] at h ⊢
  intro hmem
  exact h (diff_subset _ _ hmem)

theorem clean_close {K : Kinds} {r : Register} {o : ℕ} (hr : r.Clean) (ho : r.depends o = false) :
    (r.close K o).Clean := by
  intro c hc
  rw [close_eq, mem_append, mem_singleton] at hc
  rcases hc with hc | rfl
  · exact hr c hc
  · exact ho

/-- **Objects without dependencies** are closed as they should be: closing one adds no dependency on another. -/
theorem clean_closeAll {K : Kinds} (os : List ℕ) {r : Register} (hr : r.Clean)
    (hos : ∀ o ∈ os, r.depends o = false) : (r.closeAll K os).Clean := by
  induction os generalizing r with
  | nil => exact hr
  | cons o os ih =>
    apply ih (clean_close hr (hos o mem_cons_self))
    intro x hx
    exact depends_close (hos x (mem_cons_of_mem _ hx))

end Register

/-! ### The table -/

def live (m : Map ℕ ℕ) : List ℕ := m.items.map Prod.snd

theorem live_erase (hm : m.find h = some o) : (live m).Perm (o :: live (m.erase h)) := by
  obtain ⟨l, hl⟩ := m
  simp only [Map.find] at hm
  simp only [live, Map.erase]
  induction l with
  | nil => simp [findIn] at hm
  | cons e l ih =>
    by_cases he : e.1 = h
    · simp only [findIn, he, ite_true, some.injEq] at hm
      simp [eraseIn, he, hm]
    · simp only [findIn, he, ite_false] at hm
      simp only [map_cons, nodup_cons] at hl
      simp only [eraseIn, he, ite_false, map_cons]
      exact ((ih hl.2 hm).cons e.2).trans (List.Perm.swap _ _ _)

theorem live_set (hm : m.find h = none) (o : ℕ) : live (m.set h o) = live m ++ [o] := by
  obtain ⟨l, hl⟩ := m
  simp only [Map.find] at hm
  simp only [live, Map.set]
  induction l with
  | nil => rfl
  | cons e l ih =>
    by_cases he : e.1 = h
    · simp [findIn, he] at hm
    · simp only [findIn, he, ite_false] at hm
      simp only [map_cons, nodup_cons] at hl
      simp [setIn, he, ih hl.2 hm]

theorem mem_live_iff (m : Map ℕ ℕ) (o : ℕ) : o ∈ live m ↔ ∃ h, m.find h = some o := by
  simp only [live, List.mem_map]
  constructor
  · rintro ⟨e, he, ho⟩
    exact ⟨e.1, (m.mem_items_iff e.1 o).mp (by rw [← ho]; exact he)⟩
  · rintro ⟨h, hm⟩
    exact ⟨(h, o), (m.mem_items_iff h o).mpr hm, rfl⟩

/-! ### The loop over the pending requests -/

section

variable (r : Register) (hs : List ℕ) (m : Map ℕ ℕ)

/-- **Handles whose requests are settled are gone**, the others are as they were. -/
theorem find_scanPending (j : ℕ) : (scanPending r hs m).1.find j =
      if j ∈ (scanPending r hs m).2.2 then none else m.find j := by
  fun_induction scanPending r hs m with
  | case1 => simp
  | case2 h hs m hm ih => exact ih
  | case3 h hs m o hm hdep ih => exact ih
  | case4 h hs m o hm hdep rest ih =>
    simp only [rest, ih, Map.find_erase, mem_cons]
    by_cases hj : j = h
    · simp [hj]
    · simp [hj, Ne.symm hj]

/-- **What leaves the table is to be closed.** -/
theorem live_scanPending :
    (live m).Perm ((scanPending r hs m).2.1 ++ live (scanPending r hs m).1) := by
  fun_induction scanPending r hs m with
  | case1 => simp
  | case2 h hs m hm ih => exact ih
  | case3 h hs m o hm hdep ih => exact ih
  | case4 h hs m o hm hdep rest ih => exact (live_erase hm).trans (ih.cons o)

theorem scanPending_not_depends : ∀ o ∈ (scanPending r hs m).2.1, r.depends o = false := by
  fun_induction scanPending r hs m with
  | case1 => simp
  | case2 h hs m hm ih => exact ih
  | case3 h hs m o hm hdep ih => exact ih
  | case4 h hs m o hm hdep rest ih => exact forall_mem_cons.2 ⟨by simpa using hdep, ih⟩

variable {m}

theorem scanPending_settled (hm : m.find j = some o)
    (hj : j ∈ (scanPending r hs m).2.2) : o ∈ (scanPending r hs m).2.1 := by
  fun_induction scanPending r hs m with
  | case1 => cases hj
  | case2 h hs m _ ih => exact ih hm hj
  | case3 h hs m x _ hdep ih => exact ih hm hj
  | case4 h hs m x hx hdep rest ih =>
    by_cases hjh : j = h
    · rw [hjh, hx] at hm
      cases hm
      exact mem_cons_self
    · refine mem_cons_of_mem _ (ih ?_ ((mem_cons.mp hj).resolve_left hjh))
      rwa [Map.find_erase, if_neg (Ne.symm hjh)]

/-- **A request that the loop leaves unsettled has a dependency.** -/
theorem scanPending_free (hj : j ∈ hs) (hm : m.find j = some o)
    (ho : r.depends o = false) : j ∈ (scanPending r hs m).2.2 := by
  fun_induction scanPending r hs m with
  | case1 => cases hj
  | case2 h hs m hx ih =>
    refine ih ((mem_cons.mp hj).resolve_left ?_) hm
    rintro rfl
    rw [hx] at hm
    cases hm
  | case3 h hs m x hx hdep ih =>
    refine ih ((mem_cons.mp hj).resolve_left ?_) hm
    rintro rfl
    rw [hx] at hm
    cases hm
    rw [hdep] at ho
    cases ho
  | case4 h hs m x hx hdep rest ih =>
    by_cases hjh : j = h
    · exact hjh ▸ mem_cons_self
    · refine mem_cons_of_mem _ (ih ((mem_cons.mp hj).resolve_left hjh) ?_)
      rwa [Map.find_erase, if_neg (Ne.symm hjh)]

end

/-! ### A request that succeeds -/

section

variable (K : Kinds)

/-- A request is successful: there is such a handle, with no dependency on its object. -/
def Closes (s : HandleTable) (h o : ℕ) : Prop := s.handles.find h = some o ∧ s.depends o = false

variable {s : HandleTable}

/-- **What a successful request does.** -/
theorem closeAndRemoveHandle_of_closes (hc : Closes s h o) : s.closeAndRemoveHandle K h =
      let scan := scanPending s.toRegister s.pendingHandleCloses (s.handles.erase h)
      { s with
        toRegister := s.toRegister.closeAll K (o :: scan.2.1)
        handles := scan.1
        pendingHandleCloses := s.pendingHandleCloses.diff scan.2.2 } := by
  simp only [closeAndRemoveHandle, hc.1, hc.2, diff_eq_foldl]
  rfl

theorem closeAndRemoveHandle_of_not_closes (hc : ∀ o, ¬ Closes s h o) :
    s.closeAndRemoveHandle K h = s ∨ s.closeAndRemoveHandle K h =
      { s with pendingHandleCloses := s.pendingHandleCloses ++ [h] } := by
  cases hm : s.handles.find h with
  | none =>
    left
    simp [closeAndRemoveHandle, hm]
  | some o =>
    right
    have hdep : s.depends o = true := by
      by_contra hnot
      exact hc o ⟨hm, by simpa using hnot⟩
    simp [closeAndRemoveHandle, hm, hdep]

end

/-! ### Nothing is lost -/

/-- **The condition on `AddHandle`**: the number the handle gets is not in use. -/
def AddOk (s : HandleTable) : Act → Prop
  | .addHandle _ => s.handles.find s.nextHandle = none
  | _ => True

instance (s : HandleTable) : ∀ a, Decidable (AddOk s a)
  | .addHandle _ => inferInstanceAs (Decidable (_ = _))
  | .closeAndRemoveHandle _ => .isTrue trivial
  | .addHandleDependencyOn _ => .isTrue trivial
  | .removeHandleDependencyOn _ => .isTrue trivial

/-- **Every object that was added is in the table or has been closed**, in one place only, and nothing was
closed while there was a dependency on it. -/
structure Balanced (s : HandleTable) : Prop where
  perm : (live s.handles ++ s.closed).Perm s.added
  nodup : s.added.Nodup
  clean : s.Clean

theorem balanced_initial : Balanced .initial := ⟨.refl _, nodup_nil, nofun⟩

theorem balanced_addHandle (hs : Balanced s) (ho : o ∉ s.added)
    (hok : s.handles.find s.nextHandle = none) : Balanced (s.addHandle o) where
  perm := by
    simp only [addHandle, live_set hok, append_assoc]
    refine (List.Perm.append_left _ perm_append_comm).trans ?_
    rw [← append_assoc]
    exact hs.perm.append_right [o]
  nodup := by
    exact nodup_append.mpr ⟨hs.nodup, nodup_singleton o, by
      intro a ha b hb hab
      rw [mem_singleton.mp hb] at hab
      exact ho (hab ▸ ha)⟩
  clean := hs.clean

theorem balanced_close (K : Kinds) (hs : Balanced s) (h : ℕ) : Balanced (s.closeAndRemoveHandle K h) := by
  by_cases hc : ∃ o, Closes s h o
  · obtain ⟨o, hc⟩ := hc
    rw [closeAndRemoveHandle_of_closes K hc]
    refine ⟨?_, hs.nodup, ?_⟩
    · simp only [Register.closed_closeAll]
      refine List.Perm.trans ?_ hs.perm
      have hlive := (live_erase hc.1).trans
        ((live_scanPending s.toRegister s.pendingHandleCloses (s.handles.erase h)).cons o)
      refine List.Perm.trans ?_ (hlive.append_right _).symm
      rw [← append_assoc]
      exact perm_append_comm.trans (by simp)
    · apply Register.clean_closeAll _ hs.clean
      intro x hx
      rcases mem_cons.mp hx with rfl | hx
      · exact hc.2
      · exact scanPending_not_depends _ _ _ x hx
  · simp only [not_exists] at hc
    rcases closeAndRemoveHandle_of_not_closes K hc with he | he <;> rw [he]
    · exact hs
    · exact ⟨hs.perm, hs.nodup, hs.clean⟩

/-- **One call** loses nothing. -/
theorem balanced_step (K : Kinds) (hs : Balanced s) (hok : AddOk s a)
    (h : step K s a = some t) : Balanced t := by
  cases a with
  | addHandle o =>
    obtain ⟨ho, h⟩ := ite_none_left_eq_some.1 h
    cases h
    exact balanced_addHandle hs ho hok
  | closeAndRemoveHandle j =>
    cases h
    exact balanced_close K hs j
  | addHandleDependencyOn j =>
    simp only [step] at h
    split at h
    · cases h
    · cases h
      exact ⟨hs.perm, hs.nodup, hs.clean⟩
  | removeHandleDependencyOn o =>
    cases h
    exact ⟨hs.perm, hs.nodup, hs.clean⟩

theorem balanced_of_run (K : Kinds) (h : exec (step K) .initial as = some s)
    (hok : Guarded (step K) AddOk .initial as) : Balanced s :=
  (Reach.of_exec (step K) AddOk as .initial h hok).invariant Balanced balanced_initial
    fun _ _ _ hs hok ht => balanced_step K hs hok ht

/-! ### Requests that are put off -/

/-- The request for the handle is pending, or the object has been closed. -/
def Deferred (s : HandleTable) (h o : ℕ) : Prop :=
  (h ∈ s.pendingHandleCloses ∧ s.handles.find h = some o) ∨ o ∈ s.closed

theorem mem_closed_of_closes (K : Kinds) (hc : Closes s h o)
    (hx : x = o ∨ x ∈ (scanPending s.toRegister s.pendingHandleCloses (s.handles.erase h)).2.1 ∨ x ∈ s.closed)
    : x ∈ (s.closeAndRemoveHandle K h).closed := by
  rw [closeAndRemoveHandle_of_closes K hc]
  simp only [Register.closed_closeAll, mem_append, mem_cons]
  tauto

theorem closed_or_left (K : Kinds) (hfind : s.handles.find h = some o) (hc : Closes s j x) :
    o ∈ (s.closeAndRemoveHandle K j).closed ∨ (s.handles.erase j).find h = some o ∧
      h ∉ (scanPending s.toRegister s.pendingHandleCloses (s.handles.erase j)).2.2 := by
  by_cases hj : h = j
  · subst hj
    have hox := hc.1
    rw [hfind] at hox
    exact .inl (mem_closed_of_closes K hc (.inl (some.inj hox)))
  · have herase : (s.handles.erase j).find h = some o := by
      rw [Map.find_erase, if_neg (Ne.symm hj)]
      exact hfind
    by_cases hset : h ∈ (scanPending s.toRegister s.pendingHandleCloses (s.handles.erase j)).2.2
    · exact .inl (mem_closed_of_closes K hc (.inr (.inl (scanPending_settled _ _ herase hset))))
    · exact .inr ⟨herase, hset⟩

theorem deferred_closeAndRemoveHandle (K : Kinds) (hd : Deferred s h o) :
    Deferred (s.closeAndRemoveHandle K j) h o := by
  by_cases hc : ∃ x, Closes s j x
  · obtain ⟨x, hc⟩ := hc
    rcases hd with ⟨hpending, hfind⟩ | hclosed
    · rcases closed_or_left K hfind hc with hclosed | ⟨herase, hset⟩
      · exact .inr hclosed
      · left
        rw [closeAndRemoveHandle_of_closes K hc]
        refine ⟨mem_diff_of_mem hpending hset, ?_⟩
        rw [find_scanPending, if_neg hset]
        exact herase
    · exact .inr (mem_closed_of_closes K hc (.inr (.inr hclosed)))
  · simp only [not_exists] at hc
    rcases closeAndRemoveHandle_of_not_closes K hc with he | he <;> rw [he]
    · exact hd
    · rcases hd with ⟨hpending, hfind⟩ | hclosed
      · exact .inl ⟨mem_append_left _ hpending, hfind⟩
      · exact .inr hclosed

theorem deferred_step (K : Kinds) (hd : Deferred s h o)
    (hok : AddOk s a) (hstep : step K s a = some t) : Deferred t h o := by
  cases a with
  | addHandle x =>
    obtain ⟨-, hstep⟩ := ite_none_left_eq_some.1 hstep
    cases hstep
    rcases hd with ⟨hpending, hfind⟩ | hclosed
    · left
      refine ⟨hpending, ?_⟩
      have hne : s.nextHandle ≠ h := by
        rintro rfl
        rw [show s.handles.find s.nextHandle = none from hok] at hfind
        cases hfind
      rw [addHandle, Map.find_set_ne _ hne]
      exact hfind
    · exact .inr hclosed
  | closeAndRemoveHandle j =>
    cases hstep
    exact deferred_closeAndRemoveHandle K hd
  | addHandleDependencyOn j =>
    simp only [step] at hstep
    split at hstep
    · cases hstep
    · cases hstep
      exact hd
  | removeHandleDependencyOn x =>
    cases hstep
    exact hd

/-- **A request that was put off is kept** until its object is closed. -/
theorem deferred_of_run (K : Kinds) (hd : Deferred s h o)
    (hrun : exec (step K) s bs = some t) (hok : Guarded (step K) AddOk s bs) : Deferred t h o :=
  (Reach.of_exec (step K) AddOk bs s hrun hok).invariant (Deferred · h o) hd
    fun _ _ _ hd hok hstep => deferred_step K hd hok hstep

/-- **It takes effect with the first successful request** after its dependency is gone. -/
theorem deferred_close (K : Kinds) (hd : Deferred s h o) (hfree : s.depends o = false)
    (hc : Closes s j x) : o ∈ (s.closeAndRemoveHandle K j).closed := by
  rcases hd with ⟨hpending, hfind⟩ | hclosed
  · refine (closed_or_left K hfind hc).resolve_right ?_
    rintro ⟨herase, hset⟩
    exact hset (scanPending_free _ _ hpending herase hfree)
  · exact mem_closed_of_closes K hc (.inr (.inr hclosed))

end Btos.Kernel.Processes.Handles
