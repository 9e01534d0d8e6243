import Mathlib.Tactic.Common
import Mathlib.Algebra.Group.Nat.Defs

/-!
# Guarded runs of a labelled step function

A system is a partial step function `step : σ → α → Option σ`: from a state and a label (who does
what) it gives the next state, or `none` when that label cannot happen there.  A *guard*
`ok : σ → α → Prop` restricts the runs that are considered to those whose every step meets it in
the state before the step; the unrestricted system is the guard that is always true.

* `Reach.invariant` — **the induction rule**: what holds at the start and is kept by every guarded
  step holds in every reached state.

Nothing here is about one particular system.
-/

namespace Btos.Lib.Transition

open List Option

variable {σ α : Type*}

/-- `s` is reached from `s₀` by finitely many steps, each of which meets `ok`. -/
inductive Reach (step : σ → α → Option σ) (ok : σ → α → Prop) (s₀ : σ) : σ → Prop where
  | start : Reach step ok s₀ s₀
  | next {s t : σ} (a : α) : Reach step ok s₀ s → ok s a → step s a = some t →
      Reach step ok s₀ t

def anyStep : σ → α → Prop := fun _ _ => True

variable {step : σ → α → Option σ} {ok ok' : σ → α → Prop}

/-- **The run rule.**  A property of the start that every guarded step keeps holds in every
reached state. -/
theorem Reach.invariant (Inv : σ → Prop) (h₀ : Inv s₀)
    (hstep : ∀ s a t, Inv s → ok s a → step s a = some t → Inv t) (h : Reach step ok s₀ s) : Inv s := by
  induction h with
  | start => exact h₀
  | next a _ hok hs ih => exact hstep _ a _ ih hok hs

theorem Reach.mono (hweak : ∀ s a, ok s a → ok' s a) (h : Reach step ok s₀ s) : Reach step ok' s₀ s := by
  induction h with
  | start => exact .start
  | next a _ hok hs ih => exact ih.next a (hweak _ a hok) hs

def exec (step : σ → α → Option σ) (s : σ) : List α → Option σ
  | [] => some s
  | a :: as => (step s a).bind fun t => exec step t as

theorem exec_append (step : σ → α → Option σ) (as bs : List α) (s : σ) :
    exec step s (as ++ bs) = (exec step s as).bind fun t => exec step t bs := by
  induction as generalizing s with
  | nil => rfl
  | cons a as ih =>
    rw [cons_append, exec, exec, bind_assoc]
    exact bind_congr fun t _ => ih t

/-- **Every run goes to its end** if every step from a state with the property goes to one. -/
theorem exec_total (Inv : σ → Prop) (hstep : ∀ s a, Inv s → ∃ t, step s a = some t ∧ Inv t) (as : List α) :
    ∀ {s : σ}, Inv s → ∃ t, exec step s as = some t ∧ Inv t := by
  induction as with
  | nil =>
    intro s hs
    exact ⟨s, rfl, hs⟩
  | cons a as ih =>
    intro s hs
    obtain ⟨u, hu, hinv⟩ := hstep s a hs
    rw [exec, hu]
    exact ih hinv

/-- Every label of the list meets the guard in the state it is taken from. -/
def Guarded (step : σ → α → Option σ) (ok : σ → α → Prop) (s : σ) : List α → Prop
  | [] => True
  | a :: as => ok s a ∧ match step s a with
    | none => True
    | some t => Guarded step ok t as

instance decidableGuarded (step : σ → α → Option σ) (ok : σ → α → Prop)
    [hd : ∀ s a, Decidable (ok s a)] : ∀ (as : List α) (s : σ), Decidable (Guarded step ok s as)
  | [], _ => .isTrue trivial
  | a :: as, s =>
      match hd s a with
      | .isFalse h => .isFalse fun hg => h hg.1
      | .isTrue h =>
          match hs : step s a with
          | none => .isTrue ⟨h, by rw [hs]; trivial⟩
          | some t =>
              match decidableGuarded step ok as t with
              | .isTrue ht => .isTrue ⟨h, by rw [hs]; exact ht⟩
              | .isFalse ht => .isFalse fun hg => ht (by have := hg.2; rwa [hs] at this)

theorem Reach.trans (h₁ : Reach step ok s t) (h₂ : Reach step ok t u) : Reach step ok s u := by
  induction h₂ with
  | start => exact h₁
  | next a _ hok hs ih => exact ih.next a hok hs

/-- A guarded list of labels that runs to `t` reaches `t`. -/
theorem Reach.of_exec (step : σ → α → Option σ) (ok : σ → α → Prop) (as : List α) :
    ∀ (s : σ) {t : σ}, exec step s as = some t → Guarded step ok s as → Reach step ok s t := by
  induction as with
  | nil =>
    intro s t h _
    cases h
    exact .start
  | cons a as ih =>
    intro s t h hg
    simp only [exec, bind_eq_some_iff] at h
    obtain ⟨u, hu, ht⟩ := h
    obtain ⟨hok, hrest⟩ := hg
    rw [hu] at hrest
    exact (Reach.start.next a hok hu).trans (ih u ht hrest)

theorem guarded_of_forall (step : σ → α → Option σ) (ok : σ → α → Prop) (as : List α)
    (h : ∀ a ∈ as, ∀ s, ok s a) : ∀ s : σ, Guarded step ok s as := by
  induction as with
  | nil => intro s; trivial
  | cons a as ih =>
    intro s
    refine ⟨h a mem_cons_self s, ?_⟩
    cases step s a with
    | none => trivial
    | some t => exact ih (fun a ha => h a (mem_cons_of_mem _ ha)) t

/-- **A guard that is enough where `I` holds** admits no more runs than the one it is enough for. -/
theorem Guarded.of_enough (I : σ → Prop) (henough : ∀ s a, I s → ok' s a → ok s a)
    (hkeep : ∀ s a u, I s → ok s a → step s a = some u → I u) (as : List α) :
    ∀ s, I s → Guarded step ok' s as → Guarded step ok s as := by
  induction as with
  | nil => exact fun _ _ _ => trivial
  | cons a as ih =>
    rintro s hI ⟨hok, hg⟩
    have hok := henough s a hI hok
    refine ⟨hok, ?_⟩
    cases hu : step s a with
    | none => trivial
    | some u =>
      rw [hu] at hg
      exact ih u (hkeep s a u hI hok hu) hg

theorem guarded_anyStep (step : σ → α → Option σ) (as : List α) (s : σ) : Guarded step anyStep s as :=
  guarded_of_forall step anyStep as (fun _ _ _ => trivial) s

/-- A guarded list of labels that runs to a state with the property `p` reaches one. -/
theorem Reach.of_exec_check (step : σ → α → Option σ) (ok : σ → α → Prop) (as : List α) (s : σ)
    (p : σ → Bool) (hg : Guarded step ok s as) (h : (exec step s as).map p = some true) :
    ∃ t, Reach step ok s t ∧ p t = true := by
  obtain ⟨t, ht, hp⟩ := map_eq_some_iff.1 h
  exact ⟨t, Reach.of_exec step ok as s ht hg, hp⟩

theorem forall_take_iff (P : σ → Prop) (as : List α) : ∀ {s t : σ}, exec step s as = some t →
      ((∀ k u, exec step s (as.take k) = some u → P u) ↔
        P s ∧ Guarded step (fun s a => ∀ u, step s a = some u → P u) s as) := by
  induction as with
  | nil =>
    intro s t _
    constructor
    · intro h
      exact ⟨h 0 s rfl, trivial⟩
    · rintro ⟨hs, -⟩ k u hu
      rw [take_nil] at hu
      cases hu
      exact hs
  | cons a as ih =>
    intro s t hrun
    obtain ⟨u, hu, hrest⟩ := bind_eq_some_iff.1 hrun
    simp only [Guarded, hu, Option.some.injEq, forall_eq']
    have hstep : ∀ k, exec step s ((a :: as).take (k + 1)) = exec step u (as.take k) := by
      intro k
      rw [take_succ_cons, exec, hu, bind_some]
    constructor
    · intro h
      have hsome := (ih hrest).1 fun k v hv => h (k + 1) v (by rw [hstep]; exact hv)
      exact ⟨h 0 s rfl, hsome.1, hsome.2⟩
    · rintro ⟨hs, hu', hg⟩ k v hv
      cases k with
      | zero =>
        cases hv
        exact hs
      | succ k =>
        rw [hstep] at hv
        exact (ih hrest).2 ⟨hu', hg⟩ k v hv

/-- **Two guards that agree where `I` holds admit the same runs**, if `I` is kept by the steps that one
of them admits.  `B` is a bound on the states considered that is inherited by the states before. -/
theorem guarded_iff (I B : σ → Prop) (hback : ∀ s a u, step s a = some u → B u → B s)
    (hiff : ∀ s a u, I s → B s → step s a = some u → (ok s a ↔ ok' s a))
    (hkeep : ∀ s a u, I s → ok' s a → step s a = some u → B u → I u) (as : List α) :
    ∀ s, I s → exec step s as = some t → B t → (Guarded step ok s as ↔ Guarded step ok' s as) := by
  -- the bound goes back along the run
  have hB : ∀ (as : List α) s, exec step s as = some t → B t → B s := by
    intro as
    induction as with
    | nil =>
      intro s hrun ht
      cases hrun
      exact ht
    | cons a as ih =>
      intro s hrun ht
      obtain ⟨u, hu, hrest⟩ := bind_eq_some_iff.1 hrun
      exact hback s a u hu (ih u hrest ht)
  induction as with
  | nil =>
    intro s _ _ _
    exact Iff.rfl
  | cons a as ih =>
    intro s hI hrun ht
    obtain ⟨u, hu, hrest⟩ := bind_eq_some_iff.1 hrun
    have hstep := hiff s a u hI (hB (a :: as) s hrun ht) hu
    simp only [Guarded, hu]
    constructor
    · rintro ⟨hok, hg⟩
      exact ⟨hstep.1 hok, (ih u (hkeep s a u hI (hstep.1 hok) hu (hB as u hrest ht)) hrest ht).1 hg⟩
    · rintro ⟨hok, hg⟩
      exact ⟨hstep.2 hok, (ih u (hkeep s a u hI hok hu (hB as u hrest ht)) hrest ht).2 hg⟩

theorem guarded_congr (B : σ → Prop) (hback : ∀ s a u, step s a = some u → B u → B s)
    (hiff : ∀ s a u, Reach step anyStep s₀ s → B s → step s a = some u → (ok s a ↔ ok' s a)) (as : List α)
    (hrun : exec step s₀ as = some t) (ht : B t) : Guarded step ok s₀ as ↔ Guarded step ok' s₀ as :=
  guarded_iff (Reach step anyStep s₀) B hback hiff
    (fun _ a _ hs _ hu _ => hs.next a trivial hu) as s₀ .start hrun ht

end Btos.Lib.Transition
