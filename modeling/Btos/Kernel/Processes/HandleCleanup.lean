import Btos.Kernel.Processes.HandleRuns
import Mathlib.Data.Finset.Max

/-!
# Cleaning up the handles of a process

The part of `CleanupProcess` that closes what is left in the table.  Handles of threads are closed first, and
nobody looks whether there is a dependency on them; the others are closed round by round, as they become free.

* `closeThreads_eq`, `closeRounds_spec` — **what is closed**: everything, in the end;
* `CleanupOk` — **the condition on cleanup**: no thread's handle has a dependency on it.
-/

namespace Btos.Kernel.Processes.Handles

open Util List Register
open Lib.Transition

/-! ### The threads -/

/-- The objects behind the pointers that are not null. -/
def liveSlots (slots : List (Option ℕ)) : List ℕ := slots.filterMap id

@[simp] theorem liveSlots_nil : liveSlots [] = [] := rfl

@[simp] theorem liveSlots_none (slots : List (Option ℕ)) : liveSlots (none :: slots) = liveSlots slots := rfl

@[simp] theorem liveSlots_some (o : ℕ) (slots : List (Option ℕ)) :
    liveSlots (some o :: slots) = o :: liveSlots slots := rfl

section Threads

variable (K : Kinds)

theorem close_thread {r : Register} {o : ℕ} (ho : K.isThread o = true) :
    r.close K o = { r with closings := r.closings ++ [⟨o, r.depends o⟩] } := by
  rw [close_eq, K.release_thread o ho, diff_nil]

/-- **The first loop** closes the threads' handles, whatever depends on them. -/
theorem closeThreads_eq (slots : List (Option ℕ)) (r : Register) :
    liveSlots (closeThreads K slots r).1 = (liveSlots slots).filter (fun o => !K.isThread o) ∧
      (closeThreads K slots r).2 = { r with closings := r.closings ++
        ((liveSlots slots).filter K.isThread).map fun o => ⟨o, r.depends o⟩ } := by
  induction slots generalizing r with
  | nil => simp [closeThreads]
  | cons p slots ih =>
    cases p with
    | none => simpa [closeThreads] using ih r
    | some o =>
      cases ho : K.isThread o with
      | false => simpa [closeThreads, ho] using ih r
      | true =>
        obtain ⟨hslots, hregister⟩ := ih (r.close K o)
        simp only [closeThreads, ho, ite_true, liveSlots_none, liveSlots_some, hslots, hregister]
        simp [close_thread K ho, ho, depends]

end Threads

/-! ### The rounds -/

theorem liveSlots_remaining (r : Register) (slots : List (Option ℕ)) :
    liveSlots (remaining r slots) = (liveSlots slots).filter r.depends := by
  induction slots with
  | nil => rfl
  | cons p slots ih =>
    cases p with
    | none => exact ih
    | some o =>
      have hcons : remaining r (some o :: slots) = (some o).filter r.depends :: remaining r slots := rfl
      cases ho : r.depends o <;> simp [hcons, Option.filter, ho, ih]

theorem any_isSome_iff (slots : List (Option ℕ)) : slots.any Option.isSome = false ↔ liveSlots slots = [] := by
  simp [liveSlots, filterMap_eq_nil_iff]

theorem handlesToClose_eq (r : Register) (slots : List (Option ℕ)) :
    handlesToClose r slots = (liveSlots slots).filter fun o => !r.depends o := rfl

theorem perm_round (r : Register) (slots : List (Option ℕ)) :
    (handlesToClose r slots ++ liveSlots (remaining r slots)).Perm (liveSlots slots) := by
  rw [liveSlots_remaining]
  exact perm_append_comm.trans (filter_append_perm _ _)

def roundRegister (K : Kinds) (env : List ℕ) (slots : List (Option ℕ)) (r : Register) : Register :=
  env.foldl removeHandleDependencyOn (r.closeAll K (handlesToClose r slots))

theorem roundRegister_eq (K : Kinds) (env : List ℕ) (slots : List (Option ℕ)) (r : Register) :
    roundRegister K env slots r =
      ⟨(r.handlesWithDependencies.diff ((handlesToClose r slots).flatMap K.release)).diff env,
        (r.closeAll K (handlesToClose r slots)).closings⟩ := by
  rw [roundRegister, foldl_remove, dependencies_closeAll]

theorem closed_roundRegister (K : Kinds) (env : List ℕ) (slots : List (Option ℕ)) (r : Register) :
    (roundRegister K env slots r).closed = r.closed ++ handlesToClose r slots := by
  rw [← closed_closeAll K, roundRegister_eq]
  rfl

theorem clean_roundRegister (K : Kinds) (env : List ℕ) (slots : List (Option ℕ))
    (hr : r.Clean) : (roundRegister K env slots r).Clean := by
  rw [roundRegister_eq]
  apply clean_closeAll _ hr
  intro o ho
  rw [handlesToClose_eq, mem_filter] at ho
  simpa using ho.2

theorem closings_prefix (K : Kinds) (os : List ℕ) (r : Register) :
    ∀ c ∈ r.closings, c ∈ (r.closeAll K os).closings := by
  induction os generalizing r with
  | nil => exact fun c hc => hc
  | cons o os ih =>
    intro c hc
    apply ih (r.close K o)
    rw [close_eq]
    exact mem_append_left _ hc

theorem closeRounds_cons (K : Kinds) (env : List ℕ) (others : List (List ℕ)) (slots : List (Option ℕ))
    (r : Register) : closeRounds K (env :: others) slots r =
      if (remaining r slots).any Option.isSome then
        closeRounds K others (remaining r slots) (roundRegister K env slots r)
      else some (roundRegister K env slots r) := rfl

/-- **The rounds close everything**, and nothing that has a dependency on it. -/
theorem closeRounds_spec (K : Kinds) (others : List (List ℕ)) :
    ∀ (slots : List (Option ℕ)) (r t : Register), closeRounds K others slots r = some t →
      t.closed.Perm (r.closed ++ liveSlots slots) ∧ (t.Clean ↔ r.Clean) := by
  induction others with
  | nil =>
    nofun
  | cons env others ih =>
    intro slots r t h
    rw [closeRounds_cons] at h
    have hback : (roundRegister K env slots r).Clean → r.Clean := by
      intro hclean c hc
      apply hclean
      rw [roundRegister_eq]
      exact closings_prefix K _ r c hc
    have hround : (r.closed ++ handlesToClose r slots ++ liveSlots (remaining r slots)).Perm
        (r.closed ++ liveSlots slots) := by
      rw [append_assoc]
      exact (perm_round r slots).append_left _
    split at h
    · obtain ⟨hperm, hclean⟩ := ih _ _ t h
      rw [closed_roundRegister] at hperm
      exact ⟨hperm.trans hround, hclean.trans ⟨hback, clean_roundRegister K env slots⟩⟩
    · rename_i hnone
      cases h
      have hempty : liveSlots (remaining r slots) = [] :=
        (any_isSome_iff _).mp (by simpa using hnone)
      rw [hempty, append_nil] at hround
      rw [closed_roundRegister]
      exact ⟨hround, hback, clean_roundRegister K env slots⟩

/-! ### The end of the rounds -/

/-- The dependencies that others do not remove are held by the objects themselves. -/
def Held (K : Kinds) (dependencies objs removed : List ℕ) : Prop :=
  ∀ o ∈ objs, dependencies.count o ≤ (objs.flatMap K.release).count o + removed.count o

/-- **Of objects that only hold on to each other**, the one that was made last is free. -/
theorem exists_free (hne : objs ≠ []) (hheld : Held K dependencies objs []) : ∃ x ∈ objs, x ∉ dependencies := by
  obtain ⟨x, hx, hmax⟩ := objs.toFinset.exists_max_image id
    (by simpa [toFinset_nonempty_iff] using hne)
  rw [mem_toFinset] at hx
  refine ⟨x, hx, fun hdep => ?_⟩
  have hpos : 0 < (objs.flatMap K.release).count x := by
    have hcount := hheld x hx
    have hone := count_pos_iff.mpr hdep
    simp only [count_nil, Nat.add_zero] at hcount
    omega
  obtain ⟨y, hy, hxy⟩ := mem_flatMap.mp (count_pos_iff.mp hpos)
  have hlt := K.release_lt y x hxy
  have hle : y ≤ x := hmax y (by rwa [mem_toFinset])
  omega

/-- **A round keeps this up**: closing an object removes the dependencies it held. -/
theorem Held.round (h : Held K r.handlesWithDependencies (liveSlots slots) (env ++ removed)) :
    Held K (roundRegister K env slots r).handlesWithDependencies (liveSlots (remaining r slots)) removed := by
  intro o ho
  have hperm := perm_round r slots
  have hmem : o ∈ liveSlots slots := hperm.mem_iff.mp (mem_append_right _ ho)
  have hcount := h o hmem
  have hsplit : ((liveSlots slots).flatMap K.release).count o =
      ((handlesToClose r slots).flatMap K.release).count o +
        ((liveSlots (remaining r slots)).flatMap K.release).count o := by
    rw [← (hperm.flatMap_right K.release).count_eq, flatMap_append, count_append]
  rw [roundRegister_eq]
  simp only [count_diff]
  rw [count_append] at hcount
  omega

/-- **There is an end to the rounds**: `n` of them until only the objects' own dependencies are left, and one
for every object after that. -/
theorem closeRounds_returns (K : Kinds) (others : List (List ℕ)) :
    ∀ (n : ℕ) (slots : List (Option ℕ)) (r : Register),
      Held K r.handlesWithDependencies (liveSlots slots) (others.take n).flatten →
      n + (liveSlots slots).length < others.length → ∃ t, closeRounds K others slots r = some t := by
  induction others with
  | nil =>
    intro n slots r _ hlen
    simp at hlen
  | cons env others ih =>
    intro n slots r hheld hlen
    rw [closeRounds_cons]
    by_cases hnone : (remaining r slots).any Option.isSome = true
    · rw [if_pos hnone]
      have hle : (liveSlots (remaining r slots)).length ≤ (liveSlots slots).length := by
        rw [liveSlots_remaining]
        exact length_filter_le _ _
      cases n with
      | zero =>
        -- an object is closed in this round
        have hnonempty : liveSlots slots ≠ [] := by
          intro hempty
          have hrem : liveSlots (remaining r slots) = [] := by
            rw [liveSlots_remaining, hempty]
            rfl
          rw [(any_isSome_iff _).mpr hrem] at hnone
          cases hnone
        obtain ⟨x, hx, hfree⟩ := exists_free hnonempty hheld
        have hlt : (liveSlots (remaining r slots)).length < (liveSlots slots).length := by
          rw [liveSlots_remaining]
          apply length_filter_lt_length_iff_exists.mpr
          exact ⟨x, hx, by simpa [depends] using hfree⟩
        have hheld' : Held K r.handlesWithDependencies (liveSlots slots) (env ++ []) := by
          intro o ho
          have hcount := hheld o ho
          simp only [take_zero, flatten_nil, count_nil] at hcount
          omega
        apply ih 0 _ _ hheld'.round
        simp only [length_cons] at hlen
        omega
      | succ n =>
        rw [take_succ_cons] at hheld
        apply ih n _ _ hheld.round
        simp only [length_cons] at hlen
        omega
    · rw [if_neg hnone]
      exact ⟨_, rfl⟩

/-! ### The result -/

/-- **The condition on cleanup**: there is no dependency on a thread's handle. -/
def CleanupOk (K : Kinds) (s : HandleTable) : Prop :=
  ∀ o ∈ live s.handles, K.isThread o = true → s.depends o = false

theorem liveSlots_items (m : Map ℕ ℕ) : liveSlots (m.items.map fun e => some e.2) = live m := by
  simp [liveSlots, live, filterMap_map]

/-- **What cleanup closes**: everything that was left. -/
theorem cleanupProcess_spec (K : Kinds) (hs : Balanced s) (h : cleanupProcess K s joining others = some t) :
    t.closed.Perm s.added ∧ (t.Clean ↔ CleanupOk K s) := by
  obtain ⟨hslots, hregister⟩ := closeThreads_eq K (s.handles.items.map fun e => some e.2) s.toRegister
  rw [liveSlots_items] at hslots hregister
  obtain ⟨hperm, hclean⟩ := closeRounds_spec K others _ _ t h
  rw [foldl_remove, hregister] at hperm hclean
  rw [hslots] at hperm
  constructor
  · refine hperm.trans (List.Perm.trans ?_ hs.perm)
    have hsplit := filter_append_perm K.isThread (live s.handles)
    simp only [closed, map_append, map_map, Function.comp_def, map_id', append_assoc]
    exact (hsplit.append_left _).trans perm_append_comm
  · rw [hclean]
    simp only [Register.Clean, CleanupOk, mem_append, mem_map, mem_filter]
    constructor
    · intro hall o ho hthread
      exact hall ⟨o, s.depends o⟩ (.inr ⟨o, ⟨ho, hthread⟩, rfl⟩)
    · intro hok c hc
      rcases hc with hc | ⟨o, ⟨ho, hthread⟩, rfl⟩
      · exact hs.clean c hc
      · exact hok o ho hthread

/-- **Cleanup returns** once only dependencies that handles of the process hold are left. -/
theorem cleanupProcess_returns (K : Kinds) (s : HandleTable) (joining : List ℕ) (others : List (List ℕ))
    (n : ℕ) (hheld : Held K (s.handlesWithDependencies.diff joining) (live s.handles)
      (others.take n).flatten) (hlen : n + (live s.handles).length < others.length) :
    ∃ t, cleanupProcess K s joining others = some t := by
  obtain ⟨hslots, hregister⟩ := closeThreads_eq K (s.handles.items.map fun e => some e.2) s.toRegister
  rw [liveSlots_items] at hslots hregister
  simp only [cleanupProcess, foldl_remove, hregister]
  apply closeRounds_returns K others n
  · intro o ho
    rw [hslots] at ho ⊢
    have hcount := hheld o (mem_filter.mp ho).1
    -- threads hold nothing
    have hthreads : ((live s.handles).flatMap K.release).count o =
        (((live s.handles).filter fun o => !K.isThread o).flatMap K.release).count o := by
      have hsplit := (filter_append_perm K.isThread (live s.handles)).flatMap_right K.release
      have hnone : ((live s.handles).filter K.isThread).flatMap K.release = [] := by
        rw [flatMap_eq_nil_iff]
        intro x hx
        exact K.release_thread x (mem_filter.mp hx).2
      rw [← hsplit.count_eq, flatMap_append, hnone, nil_append]
    rw [← hthreads]
    exact hcount
  · rw [hslots]
    have := length_filter_le (fun o => !K.isThread o) (live s.handles)
    omega

/-- **Handles over every sequence of calls in which no number is given twice at a time**, and the cleanup after
it.

* Nothing has been closed twice, or while there was a dependency on it.
* `GetHandle` gives no object that has been deleted.
* A request that was put off takes effect with the first successful one after the dependency is gone.
* When cleanup returns, everything has been closed exactly once; nothing while there was a dependency on it
  exactly if there is none on a thread's handle.
* Cleanup returns if the dependencies that others do not remove are held by handles of the process. -/
theorem handles_right (K : Kinds) (as : List Act) (s : HandleTable)
    (h : exec (step K) .initial as = some s) (hok : Guarded (step K) AddOk .initial as) :
    (s.closed.Nodup ∧ s.Clean) ∧ (∀ j o, s.getHandle j = some o → o ∉ s.closed) ∧
    (∀ j o, s.getHandle j = some o → s.depends o = true →
      ∀ bs t, exec (step K) s (.closeAndRemoveHandle j :: bs) = some t →
      Guarded (step K) AddOk s (.closeAndRemoveHandle j :: bs) → t.depends o = false →
      ∀ j' o', Closes t j' o' → o ∈ (t.closeAndRemoveHandle K j').closed) ∧
    (∀ joining others t, cleanupProcess K s joining others = some t →
      (t.closed.Nodup ∧ ∀ o, o ∈ t.closed ↔ o ∈ s.added) ∧ (t.Clean ↔ CleanupOk K s)) ∧
    (∀ joining others n, Held K (s.handlesWithDependencies.diff joining) (live s.handles)
        (others.take n).flatten → n + (live s.handles).length < others.length →
      ∃ t, cleanupProcess K s joining others = some t) := by
  have hs := balanced_of_run K h hok
  have hnodup : (live s.handles ++ s.closed).Nodup := hs.perm.nodup_iff.mpr hs.nodup
  refine ⟨⟨(nodup_append.mp hnodup).2.1, hs.clean⟩, fun j o hj hclosed => ?_,
    fun j o hj hdep bs t hrun hguard hfree j' o' hc => ?_, fun joining others t ht => ?_,
    fun joining others n hheld hlen => cleanupProcess_returns K s joining others n hheld hlen⟩
  · have hlive : o ∈ live s.handles := (mem_live_iff s.handles o).mpr ⟨j, hj⟩
    exact (nodup_append.mp hnodup).2.2 o hlive o hclosed rfl
  · obtain ⟨u, hu, hrest⟩ := Option.bind_eq_some_iff.mp hrun
    obtain ⟨-, hguard⟩ := hguard
    rw [hu] at hguard
    have hput : Deferred u j o := by
      cases hu
      have hfind : s.handles.find j = some o := hj
      left
      simp [HandleTable.closeAndRemoveHandle, hfind, hdep]
    exact deferred_close K (deferred_of_run K hput hrest hguard) hfree hc
  · obtain ⟨hperm, hclean⟩ := cleanupProcess_spec K hs ht
    exact ⟨⟨hperm.nodup_iff.mpr hs.nodup, fun o => hperm.mem_iff⟩, hclean⟩

/-- A file (object 0), a thread (object 1) and a waiting list for the file (object 2). -/
def waitKinds : Kinds where
  isThread x := decide (x = 1)
  release x := if x = 2 then [0] else []
  release_lt x o h := by
    split at h
    · rename_i hx
      rw [mem_singleton.mp h, hx]
      decide
    · cases h
  release_thread x hx := by
    rw [of_decide_eq_true hx]
    rfl

/-- The file's handle is closed while the waiting list holds on to it. -/
def waitRun : List Act :=
  [.addHandle 0, .addHandle 1, .addHandleDependencyOn 1, .addHandle 2, .closeAndRemoveHandle 1]

/-- **The request is put off, and cleanup closes all three objects**: in two rounds, the file after the waiting
list. -/
theorem handles_right_wait :
    ∃ s t, exec (step waitKinds) .initial waitRun = some s ∧
      cleanupProcess waitKinds s [] [[], [], [], []] = some t ∧ t.closed.Nodup ∧ t.Clean := by
  have hrun : ((exec (step waitKinds) .initial waitRun).bind fun s =>
      cleanupProcess waitKinds s [] [[], [], [], []]).isSome = true := by decide
  obtain ⟨t, ht⟩ := Option.isSome_iff_exists.mp hrun
  obtain ⟨s, hs, ht⟩ := Option.bind_eq_some_iff.mp ht
  have hcheck : (exec (step waitKinds) .initial waitRun).all (fun s : HandleTable => decide
      (∀ o ∈ live s.handles, waitKinds.isThread o = true → s.depends o = false)) = true := by decide
  rw [hs, Option.all_some, decide_eq_true_eq] at hcheck
  obtain ⟨hclosed, hclean⟩ := (handles_right waitKinds waitRun s hs (by decide)).2.2.2.1 [] _ t ht
  exact ⟨s, t, hs, ht, hclosed.1, hclean.mpr hcheck⟩

/-- **A thread's handle that somebody waits on** is closed by cleanup all the same. -/
theorem handles_wrong :
    ((exec (step waitKinds) .initial [.addHandle 1, .addHandleDependencyOn 1]).bind fun s =>
      cleanupProcess waitKinds s [] [[]]).map closings = some [⟨1, true⟩] := by
  decide

end Btos.Kernel.Processes.Handles
