import Btos.Modules.Ata.Queue
import Btos.Lib.Transition

/-!
# The worker serves every operation

The worker goes on as long as there is something to do, except if it has ended or waits for room in a full queue for
its own operation of reading ahead.  That is shown with answers that no process is there, so that operations other
than a certain one are given up; nothing but such answers is needed for the worker to get on.

* `Deadlocked`, `Stuck` — **the states in which the worker stays**;
* `QuietTo` — **steps in which a certain operation is not processed**: its type does not matter in them;
* `exists_room` — **there is room in the queue after some steps**;
* `exists_turn` — **an operation in the queue has its turn after some steps**.
-/

namespace Btos.Modules.Ata.Queue.Machine

open Function Lib.Transition List Option

variable {Block : Type*}

/-- **The worker waits for itself**: it wants to read ahead, and the queue is full. -/
def Deadlocked (m : Machine Block) : Prop :=
  m.phase = .idling ∧ m.lastOperation.type = .read ∧ queueSize ≤ m.queue.length

def Stuck (m : Machine Block) : Prop := m.phase = .ended ∨ m.Deadlocked

/-! ### One operation -/

/-- An operation is processed, and its process is not there. -/
def giveUp (m : Machine Block) : Ref → Machine Block
  | .idleOp => { m with idleOp := { m.idleOp with status := .error } }
  | .made b => { m with lastOperation := m.op b, op := update m.op b { m.op b with status := .error } }

/-- The machine with an operation of another type at `a`. -/
def retyped (m : Machine Block) (a : ℕ) (type : ATAOperationType) : Machine Block :=
  { m with op := update m.op a { m.op a with type := type } }

section Serving

variable {a : ℕ} {m m₁ m' : Machine Block} {ans : Answer Block} {batch : List Ref} {done : ℕ} {r : Ref}

theorem process_eq_giveUp (hans : ans.switched = false) (m : Machine Block) (r : Ref) :
    m.process ans (some r) = (m.giveUp r, true) := by
  cases r <;> simp [process, giveUp, put, get, hans]

theorem get_giveUp (m : Machine Block) (r r' : Ref) :
    (m.giveUp r).get r' = if r' = r then { m.get r with status := .error } else m.get r' := by
  cases r <;> cases r' <;> simp [giveUp, get, update_apply]

theorem queue_giveUp (m : Machine Block) (r : Ref) : (m.giveUp r).queue = m.queue := by
  cases r <;> rfl

theorem giveUp_retyped (hr : r ≠ .made a) (m : Machine Block) (type : ATAOperationType) :
    (m.retyped a type).giveUp r = (m.giveUp r).retyped a type := by
  cases r with
  | idleOp => rfl
  | made b =>
    have hba : b ≠ a := fun h => hr (by rw [h])
    simp only [giveUp, retyped, update_of_ne hba, update_of_ne hba.symm, update_comm hba]

/-- **The choice in a batch** does not depend on a type. -/
theorem least_retyped (m : Machine Block) (a : ℕ) (type : ATAOperationType) (batch : List Ref) :
    (m.retyped a type).least batch = m.least batch := by
  have hget : ∀ r, ((m.retyped a type).get r).status = (m.get r).status ∧
      ((m.retyped a type).get r).lba = (m.get r).lba := by
    intro r
    cases r with
    | idleOp => exact ⟨rfl, rfl⟩
    | made b => by_cases hb : b = a <;> simp [retyped, get, hb]
  have hchoose : (m.retyped a type).choose = m.choose := by
    funext next r
    simp only [choose, hget]
  rw [least, hchoose, least]

theorem retyped_self (m : Machine Block) (a : ℕ) : m.retyped a (m.op a).type = m := by
  simp [retyped]

/-! ### Quiet steps -/

/-- The next step does not process the operation at `a`. -/
def Quiet (a : ℕ) (m : Machine Block) : Prop :=
  ∀ batch done, m.phase = .batching batch done → m.least batch ≠ some (.made a)

theorem quiet_of_phase (h : ∀ batch done, m.phase ≠ .batching batch done) : Quiet a m := by
  intro batch done hphase
  exact absurd hphase (h batch done)

theorem quiet_of_batch (hphase : m.phase = .batching batch done) (h : m.least batch ≠ some (.made a)) : Quiet a m := by
  intro batch' done' hphase'
  rw [hphase] at hphase'
  cases hphase'
  exact h

theorem work_retyped (hquiet : Quiet a m) (hans : ans.switched = false) (hwork : m.work ans = some m')
    (type : ATAOperationType) : (m.retyped a type).work ans = some (m'.retyped a type) := by
  have hfields : (m.retyped a type).phase = m.phase ∧ (m.retyped a type).queue = m.queue ∧
      (m.retyped a type).lastOperation = m.lastOperation := ⟨rfl, rfl, rfl⟩
  simp only [work, idle, hfields, least_retyped] at hwork ⊢
  cases hphase : m.phase with
  | batching batch done =>
    simp only [hphase] at hwork ⊢
    split at hwork
    · rw [if_pos ‹_›]
      cases hwork
      cases hleast : m.least batch with
      | none => rfl
      | some r =>
        have hr : r ≠ .made a := fun h => hquiet batch done hphase (h ▸ hleast)
        rw [process_eq_giveUp hans, process_eq_giveUp hans, giveUp_retyped hr]
        rfl
    · rw [if_neg ‹_›]
      cases hwork
      rfl
  | idling =>
    simp only [hphase, map_eq_some_iff] at hwork ⊢
    obtain ⟨m2, hm2, rfl⟩ := hwork
    refine ⟨m2.retyped a type, ?_, rfl⟩
    split at hm2
    · obtain ⟨hroom, hm2⟩ := ite_none_right_eq_some.1 hm2
      cases hm2
      rw [if_pos ‹_›, if_pos hroom]
      rfl
    · cases hm2
      rw [if_neg ‹_›]
  | checking =>
    simp only [hphase] at hwork ⊢
    split at hwork
    · cases hwork
      rw [if_pos ‹_›]
      rfl
    · cases hwork
      rw [if_neg ‹_›]
      rfl
  | blocked =>
    simp only [hphase] at hwork ⊢
    obtain ⟨hqueue, hm'⟩ := ite_none_left_eq_some.1 hwork
    cases hm'
    rw [if_neg hqueue]
    rfl
  | ended => simp [hphase] at hwork

theorem work_kept (hquiet : Quiet a m) (hans : ans.switched = false) (hwork : m.work ans = some m') :
    m'.disk = m.disk ∧ m'.mem = m.mem ∧ m'.op a = m.op a := by
  rcases work_cases hwork with hlooked | ⟨batch, done, r, hphase, -, hleast, rfl⟩
  · exact ⟨hlooked.disk, hlooked.mem, congrFun hlooked.op a⟩
  · rw [process_eq_giveUp hans]
    cases r with
    | idleOp => exact ⟨rfl, rfl, rfl⟩
    | made b =>
      have hab : a ≠ b := fun h => hquiet batch done hphase (h ▸ hleast)
      exact ⟨rfl, rfl, update_of_ne hab _ _⟩

/-- **The worker comes to `m'` quietly**, whatever the type of the operation at `a` is. -/
structure QuietTo (a : ℕ) (m m' : Machine Block) : Prop where
  run : ∃ as, ∀ type, exec work (m.retyped a type) as = some (m'.retyped a type)
  disk : m'.disk = m.disk
  mem : m'.mem = m.mem
  op : m'.op a = m.op a

theorem QuietTo.refl (a : ℕ) (m : Machine Block) : QuietTo a m m := ⟨⟨[], fun _ => rfl⟩, rfl, rfl, rfl⟩

theorem QuietTo.trans (h : QuietTo a m m₁) (h' : QuietTo a m₁ m') : QuietTo a m m' := by
  obtain ⟨as, hexec⟩ := h.run
  obtain ⟨as', hexec'⟩ := h'.run
  refine ⟨⟨as ++ as', ?_⟩, h'.disk.trans h.disk, h'.mem.trans h.mem, h'.op.trans h.op⟩
  intro type
  rw [exec_append, hexec]
  exact hexec' type

theorem QuietTo.step (hquiet : Quiet a m) (hans : ans.switched = false) (hwork : m.work ans = some m') :
    QuietTo a m m' := by
  obtain ⟨hdisk, hmem, hop⟩ := work_kept hquiet hans hwork
  refine ⟨⟨[ans], ?_⟩, hdisk, hmem, hop⟩
  intro type
  rw [exec, work_retyped hquiet hans hwork]
  rfl

theorem QuietTo.exec (h : QuietTo a m m') : ∃ as, exec work m as = some m' := by
  obtain ⟨as, hexec⟩ := h.run
  refine ⟨as, ?_⟩
  have hself := hexec (m.op a).type
  rwa [retyped_self, ← h.op, retyped_self] at hself

/-! ### Batches -/

theorem choose_ne_none {next : Option Ref} (h : next ≠ none ∨ (m.get r).status = .pending) :
    m.choose next r ≠ none := by
  simp only [choose]
  split
  · exact h.resolve_right ‹_›
  · split
    · simp
    · split <;> simp

theorem least_ne_none (hr : r ∈ batch) (hpending : (m.get r).status = .pending) : m.least batch ≠ none := by
  suffices hfold : ∀ (l : List Ref) (next : Option Ref), next ≠ none ∨ r ∈ l → l.foldl m.choose next ≠ none from
    hfold batch none (.inr hr)
  intro l
  induction l with
  | nil =>
    intro next h
    exact h.resolve_right not_mem_nil
  | cons r' l ih =>
    intro next h
    apply ih
    rcases h with h | h
    · exact .inl (choose_ne_none (.inl h))
    · rcases mem_cons.mp h with rfl | h
      · exact .inl (choose_ne_none (.inr hpending))
      · exact .inr h

/-- The number of pending operations in a batch. -/
def pendingIn (m : Machine Block) (batch : List Ref) : ℕ := batch.countP fun r => (m.get r).status = .pending

theorem pendingIn_pos (hr : r ∈ batch) (hpending : (m.get r).status = .pending) : 0 < m.pendingIn batch := by
  rw [pendingIn, countP_pos_iff]
  exact ⟨r, hr, by simpa using hpending⟩

/-- **Every operation that is given up is one less.** -/
theorem pendingIn_giveUp_lt (hr : r ∈ batch) (hpending : (m.get r).status = .pending) :
    (m.giveUp r).pendingIn batch < m.pendingIn batch := by
  induction batch with
  | nil => exact absurd hr not_mem_nil
  | cons r0 l ih =>
    have hmono : (m.giveUp r).pendingIn l ≤ m.pendingIn l := by
      apply countP_mono_left
      intro r' _ h
      rw [get_giveUp] at h
      split at h
      · simp at h
      · exact h
    simp only [pendingIn, countP_cons] at hmono ih ⊢
    by_cases heq : r0 = r
    · subst heq
      have hgiven : ((m.giveUp r0).get r0).status ≠ .pending := by simp [get_giveUp]
      simp only [hpending, hgiven, decide_true, decide_false, ite_true, Bool.false_eq_true, ite_false]
      omega
    · have hlt := ih ((mem_cons.mp hr).resolve_left (Ne.symm heq))
      rw [get_giveUp m r r0, if_neg heq]
      omega

/-- **The next turn of a batch**, in which another operation is given up if one is pending. -/
theorem exists_next (hphase : m.phase = .batching batch done) (hlt : done < batch.length)
    (hnot : m.least batch ≠ some (.made a)) (hans : ans.switched = false) :
    ∃ m', QuietTo a m m' ∧ m'.phase = .batching batch (done + 1) ∧ m'.queue = m.queue ∧
      (m.least batch ≠ none → m'.pendingIn batch < m.pendingIn batch) := by
  have hquiet := quiet_of_batch hphase hnot
  cases hleast : m.least batch with
  | none =>
    have hwork : m.work ans = some { m with phase := .batching batch (done + 1) } := by
      simp [work, hphase, hlt, hleast, process]
    exact ⟨_, .step hquiet hans hwork, rfl, rfl, absurd rfl⟩
  | some r =>
    have hwork : m.work ans = some { m.giveUp r with phase := .batching batch (done + 1) } := by
      simp [work, hphase, hlt, hleast, process_eq_giveUp hans]
    obtain ⟨hr, hpending⟩ := get_of_least hleast
    exact ⟨_, .step hquiet hans hwork, rfl, queue_giveUp m r, fun _ => pendingIn_giveUp_lt hr hpending⟩

/-- **A batch comes to its end.** -/
theorem finish_batch (hphase : m.phase = .batching batch done) (hnot : Ref.made a ∉ batch)
    (hans : ans.switched = false) : ∃ m', QuietTo a m m' ∧ m'.phase = .checking ∧ m'.queue = m.queue := by
  have hother : ∀ m : Machine Block, m.least batch ≠ some (.made a) := fun m hleast => hnot (get_of_least hleast).1
  -- by induction on the number of turns that are left
  generalize hn : batch.length - done = n
  induction n generalizing m done with
  | zero =>
    have hwork : m.work ans = some { m with phase := .checking } := by
      rw [work, hphase]
      exact if_neg (by omega)
    exact ⟨_, .step (quiet_of_batch hphase (hother m)) hans hwork, rfl, rfl⟩
  | succ n ih =>
    obtain ⟨m1, hquiet, hphase1, hqueue, -⟩ := exists_next hphase (by omega) (hother m) hans
    obtain ⟨m', hquiet', hchecking, hqueue'⟩ := ih hphase1 (by omega)
    exact ⟨m', hquiet.trans hquiet', hchecking, hqueue'.trans hqueue⟩

/-- **The worker takes what is in the queue.** -/
theorem exists_batch (hended : m.phase ≠ .ended) (hidle : m.phase ≠ .idling) (hqueue : m.queue ≠ [])
    (hnot : ∀ batch done, m.phase = .batching batch done → Ref.made a ∉ batch) (hans : ans.switched = false) :
    ∃ m', QuietTo a m m' ∧ m'.phase = .batching m.queue 0 ∧ m'.queue = [] := by
  have hchecking : ∃ m1, QuietTo a m m1 ∧ m1.phase = .checking ∧ m1.queue = m.queue := by
    cases hphase : m.phase with
    | checking => exact ⟨m, .refl a m, hphase, rfl⟩
    | idling => exact absurd hphase hidle
    | ended => exact absurd hphase hended
    | blocked =>
      have hwork : m.work ans = some { m with phase := .checking } := by simp [work, hphase, hqueue]
      exact ⟨_, .step (quiet_of_phase (by simp [hphase])) hans hwork, rfl, rfl⟩
    | batching batch done => exact finish_batch hphase (hnot batch done hphase) hans
  obtain ⟨m1, hquiet, hphase, heq⟩ := hchecking
  have hwork : m1.work ans = some { m1 with queue := [], phase := .batching m1.queue 0 } := by
    simp [work, hphase, heq, hqueue]
  exact ⟨_, hquiet.trans (.step (quiet_of_phase (by simp [hphase])) hans hwork), by rw [heq], rfl⟩

/-! ### Room -/

/-- Nothing is in the way of an operation at `a` that is added. -/
structure Free (a : ℕ) (m : Machine Block) : Prop where
  ended : m.phase ≠ .ended
  idle : m.phase ≠ .idling
  not_mem : Ref.made a ∉ m.refs

theorem Free.not_mem_batch (h : Free a m) (batch : List Ref) (done : ℕ) (hphase : m.phase = .batching batch done) :
    Ref.made a ∉ batch := fun hmem => h.not_mem (by simp [refs, hphase, hmem])

theorem Free.exists_room (h : Free a m) (hans : ans.switched = false) :
    ∃ m', QuietTo a m m' ∧ Free a m' ∧ m'.queue.length < queueSize := by
  by_cases hqueue : m.queue = []
  · exact ⟨m, .refl a m, h, by simp [hqueue, queueSize]⟩
  · obtain ⟨m', hquiet, hphase, hempty⟩ := exists_batch h.ended h.idle hqueue h.not_mem_batch hans
    refine ⟨m', hquiet, ⟨by simp [hphase], by simp [hphase], ?_⟩, by simp [hempty, queueSize]⟩
    simp only [refs, hempty, hphase, nil_append]
    exact fun hmem => h.not_mem (mem_append_left _ hmem)

/-- **There is room in the queue after some steps**, unless the worker is stuck. -/
theorem exists_room (hnot : Ref.made a ∉ m.refs) (hstuck : ¬ m.Stuck) (hans : ans.switched = false) :
    ∃ m', QuietTo a m m' ∧ Free a m' ∧ m'.queue.length < queueSize := by
  by_cases hphase : m.phase = .idling
  · -- the worker reads ahead, if it wants to, and has room for that
    obtain ⟨m1, hwork, hblocked⟩ : ∃ m1, m.work ans = some m1 ∧ m1.phase = .blocked := by
      by_cases hread : m.lastOperation.type = .read
      · have hroom : m.queue.length < queueSize := by
          by_contra hfull
          exact hstuck (.inr ⟨hphase, hread, by omega⟩)
        exact ⟨_, by simp only [work, hphase, idle, hread, hroom, ite_true]; rfl, rfl⟩
      · exact ⟨_, by simp only [work, hphase, idle, hread, ite_false]; rfl, rfl⟩
    have hnot1 : Ref.made a ∉ m1.refs := by
      intro hmem
      rcases work_cases hwork with hlooked | ⟨batch, done, r, hbatching, -⟩
      · rcases hlooked.idleOp with ⟨-, hsub⟩ | ⟨-, -, -, hsub⟩
        · exact hnot (hsub hmem)
        · exact hnot (by simpa using hsub hmem)
      · rw [hphase] at hbatching
        cases hbatching
    have hfree : Free a m1 := ⟨by simp [hblocked], by simp [hblocked], hnot1⟩
    obtain ⟨m', hquiet, hrest⟩ := hfree.exists_room hans
    exact ⟨m', (QuietTo.step (quiet_of_phase (by simp [hphase])) hans hwork).trans hquiet, hrest⟩
  · have hfree : Free a m := ⟨fun hended => hstuck (.inl hended), hphase, hnot⟩
    exact hfree.exists_room hans

/-! ### Turns -/

/-- **In its batch, an operation has its turn.** -/
theorem turn_in_batch (hphase : m.phase = .batching batch done) (hmem : Ref.made a ∈ batch)
    (hpending : (m.op a).status = .pending) (hcount : m.pendingIn batch + done ≤ batch.length)
    (hans : ans.switched = false) : ∃ m' done', QuietTo a m m' ∧ m'.phase = .batching batch done' ∧
      done' < batch.length ∧ m'.least batch = some (.made a) := by
  generalize hn : batch.length - done = n
  induction n generalizing m done with
  | zero =>
    have hpos := pendingIn_pos hmem hpending
    omega
  | succ n ih =>
    have hlt : done < batch.length := by omega
    by_cases hleast : m.least batch = some (.made a)
    · exact ⟨m, done, .refl a m, hphase, hlt, hleast⟩
    · obtain ⟨m1, hquiet, hphase1, -, hless⟩ := exists_next hphase hlt hleast hans
      have hless := hless (least_ne_none hmem hpending)
      obtain ⟨m', done', hquiet', hturn⟩ :=
        ih hphase1 (by rw [hquiet.op]; exact hpending) (by omega) (by omega)
      exact ⟨m', done', hquiet.trans hquiet', hturn⟩

/-- **An operation in the queue has its turn.** -/
theorem exists_turn (hended : m.phase ≠ .ended) (hidle : m.phase ≠ .idling) (hmem : Ref.made a ∈ m.queue)
    (hnot : ∀ batch done, m.phase = .batching batch done → Ref.made a ∉ batch)
    (hpending : (m.op a).status = .pending) (hans : ans.switched = false) :
    ∃ m' batch done, QuietTo a m m' ∧ m'.phase = .batching batch done ∧ done < batch.length ∧
      m'.least batch = some (.made a) := by
  obtain ⟨m1, hquiet, hphase, -⟩ := exists_batch hended hidle (ne_nil_of_mem hmem) hnot hans
  obtain ⟨m', done, hquiet', hturn⟩ := turn_in_batch hphase hmem (by rw [hquiet.op]; exact hpending)
    countP_le_length hans
  exact ⟨m', m.queue, done, hquiet.trans hquiet', hturn⟩

end Serving

end Btos.Modules.Ata.Queue.Machine
