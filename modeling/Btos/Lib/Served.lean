import Mathlib.Tactic.Common

/-!
# Calls that are served as they are meant

An object with calls that return something, or go wrong (`none`), beside what each call is meant to do.

* `Right` — **a sequence of calls is served**: each one returns what is meant, and the relation holds behind it.
* `right_iff` — **from one call to a sequence**: with a condition that decides whether one call is served, a sequence is
  served exactly if each call meets the condition where it is made.
-/

namespace Btos.Lib.Served

variable {σ τ κ ρ : Type*} (step : σ → κ → Option (ρ × σ)) (meant : τ → κ → ρ × τ) (R : σ → τ → Prop) (ok : τ → κ → Prop)

/-- One call. -/
def RightAt (s : σ) (t : τ) (c : κ) (s' : σ) : Prop := step s c = some ((meant t c).1, s') ∧ R s' (meant t c).2

def Right : σ → τ → List κ → Prop
  | _, _, [] => True
  | s, t, c :: calls => ∃ s', RightAt step meant R s t c s' ∧ Right s' (meant t c).2 calls

/-- Each call meets the condition where it is made. -/
def Within : τ → List κ → Prop
  | _, [] => True
  | t, c :: calls => ok t c ∧ Within (meant t c).2 calls

variable {step meant R ok}

theorem right_iff (hstep : ∀ s t, R s t → ∀ c, (∃ s', RightAt step meant R s t c s') ↔ ok t c) (hst : R s t) (calls : List κ) :
    Right step meant R s t calls ↔ Within meant ok t calls := by
  induction calls generalizing s t with
  | nil => exact Iff.rfl
  | cons c calls ih =>
    rw [Right, Within, ← hstep s t hst c]
    constructor
    · rintro ⟨s', hs', hrest⟩
      exact ⟨⟨s', hs'⟩, (ih hs'.2).mp hrest⟩
    · rintro ⟨⟨s', hs'⟩, hrest⟩
      exact ⟨s', hs', (ih hs'.2).mpr hrest⟩

end Btos.Lib.Served
