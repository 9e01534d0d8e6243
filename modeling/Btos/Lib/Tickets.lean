import Mathlib.Data.Fintype.Card
import Mathlib.Logic.Function.Basic

/-!
# Waiting with tickets

A number, and parties that wait.  A party that begins to wait adds 1 to the number and keeps the sum as its *ticket*; it
may go on while the number is less than its ticket.  Others lower the number.

* `Inv` — **there is a party for every number up to the present one**, so the number is at most the number of parties
  (`Inv.value_le`);
* `Kept` — **no wake-up is undone**.

The parties are any type.
-/

namespace Btos.Lib.Tickets

open Function Option

/-- The number, the tickets of those that wait, and who has been woken. -/
structure Room (ι : Type*) where
  value : ℕ
  ticket : ι → Option ℕ
  woken : ι → Bool

/-- With the number `n` a party may go on. -/
def mayGo (n : ℕ) : Option ℕ → Bool
  | none => false
  | some v => n < v

namespace Room

variable {ι : Type*}

def enabled (s : Room ι) (t : ι) : Bool := mayGo s.value (s.ticket t)

/-- The number becomes `n`. -/
def lower (s : Room ι) (n : ℕ) : Room ι where
  value := n
  ticket := s.ticket
  woken := fun u => s.woken u || mayGo n (s.ticket u)

variable [DecidableEq ι]

def enter (s : Room ι) (t : ι) : Room ι where
  value := s.value + 1
  ticket := update s.ticket t (some (s.value + 1))
  woken := update s.woken t false

def leave (s : Room ι) (t : ι) : Room ι where
  value := s.value
  ticket := update s.ticket t none
  woken := update s.woken t false

section Fields

variable (s : Room ι) (t : ι) {u : ι} (hu : u ≠ t)

theorem enter_ticket_self : (s.enter t).ticket t = some (s.value + 1) := update_self ..

theorem enter_woken_self : (s.enter t).woken t = false := update_self ..

theorem leave_ticket_self : (s.leave t).ticket t = none := update_self ..

theorem leave_woken_self : (s.leave t).woken t = false := update_self ..

include hu

theorem enter_ticket_of_ne : (s.enter t).ticket u = s.ticket u := update_of_ne hu ..

theorem enter_woken_of_ne : (s.enter t).woken u = s.woken u := update_of_ne hu ..

theorem leave_ticket_of_ne : (s.leave t).ticket u = s.ticket u := update_of_ne hu ..

theorem leave_woken_of_ne : (s.leave t).woken u = s.woken u := update_of_ne hu ..

end Fields

end Room

open Room

variable {ι : Type*}

theorem mayGo_eq_true_iff : mayGo n o = true ↔ ∃ v, o = some v ∧ n < v := by
  cases o with
  | none | some v => simp [mayGo]

theorem mayGo_mono (hle : m ≤ n) (h : mayGo n o = true) : mayGo m o = true := by
  obtain ⟨v, rfl, hv⟩ := mayGo_eq_true_iff.mp h
  exact mayGo_eq_true_iff.mpr ⟨v, rfl, Nat.lt_of_le_of_lt hle hv⟩

structure Inv (s : Room ι) : Prop where
  /-- Every number up to the present one is the ticket of a party. -/
  ladder : ∀ k, 0 < k → k ≤ s.value → ∃ t, s.ticket t = some k
  pos : ∀ t v, s.ticket t = some v → 0 < v
  awake : ∀ t, s.enabled t = true → s.woken t = true

/-- **The number is at most the number of parties.** -/
theorem Inv.value_le {s : Room ι} (h : Inv s) {n : ℕ} {f : ι → Fin n} (hf : Function.Injective f) : s.value ≤ n := by
  have hparty : ∀ k : Fin s.value, ∃ t, s.ticket t = some (k.val + 1) := fun k =>
    h.ladder (k.val + 1) (Nat.succ_pos _) k.isLt
  choose party hticket using hparty
  have hinj : Function.Injective party := by
    intro k l hkl
    have hsame := hticket k
    rw [hkl, hticket l, some.injEq, Nat.add_right_cancel_iff] at hsame
    exact Fin.ext hsame.symm
  simpa using Fintype.card_le_of_injective _ (hf.comp hinj)

/-- No party that has been woken has to wait. -/
def Kept (s : Room ι) : Prop := ∀ t, s.woken t = true → s.enabled t = true

section Lower

variable {s : Room ι} {n : ℕ} (hle : n ≤ s.value)
include hle

theorem Inv.lower (h : Inv s) : Inv (s.lower n) where
  ladder k hk hkn := h.ladder k hk (hkn.trans hle)
  pos := h.pos
  awake t ht := by
    have hgo : mayGo n (s.ticket t) = true := ht
    show (s.woken t || mayGo n (s.ticket t)) = true
    rw [hgo, Bool.or_true]

theorem kept_lower (h : Kept s) : Kept (s.lower n) := by
  intro t ht
  rcases Bool.or_eq_true _ _ ▸ ht with hold | hnew
  · exact mayGo_mono hle (h t hold)
  · exact hnew

end Lower

section Party

variable [DecidableEq ι] {s : Room ι} {t : ι}

theorem enabled_leave_of_ne (hu : u ≠ t) : (s.leave t).enabled u = s.enabled u := by
  rw [enabled, leave_ticket_of_ne s t hu]
  rfl

theorem Inv.leave (h : Inv s) (ht : s.enabled t = true) : Inv (s.leave t) where
  ladder k hk hkn := by
    obtain ⟨u, hu⟩ := h.ladder k hk hkn
    have hne : u ≠ t := by
      rintro rfl
      obtain ⟨v, hv, hlt⟩ := mayGo_eq_true_iff.mp ht
      have hk : k ≤ s.value := hkn
      rw [hu, some.injEq] at hv
      omega
    exact ⟨u, by rw [leave_ticket_of_ne s t hne, hu]⟩
  pos u v hu := by
    by_cases hut : u = t
    · rw [hut, leave_ticket_self] at hu
      cases hu
    · rw [leave_ticket_of_ne s t hut] at hu
      exact h.pos u v hu
  awake u hu := by
    by_cases hut : u = t
    · rw [hut, enabled, leave_ticket_self] at hu
      cases hu
    · rw [enabled_leave_of_ne hut] at hu
      rw [leave_woken_of_ne s t hut]
      exact h.awake u hu

theorem kept_leave (h : Kept s) : Kept (s.leave t) := by
  intro u hu
  by_cases hut : u = t
  · rw [hut, leave_woken_self] at hu
    cases hu
  · rw [leave_woken_of_ne s t hut] at hu
    rw [enabled_leave_of_ne hut]
    exact h u hu

theorem enabled_enter_self : (s.enter t).enabled t = false := by
  rw [enabled, enter_ticket_self]
  exact decide_eq_false (Nat.lt_irrefl _)

theorem enabled_enter_of_ne (hu : u ≠ t) : (s.enter t).enabled u = mayGo (s.value + 1) (s.ticket u) := by
  rw [enabled, enter_ticket_of_ne s t hu]
  rfl

theorem Inv.enter (h : Inv s) (ht : s.ticket t = none) : Inv (s.enter t) where
  ladder k hk hkn := by
    by_cases hlast : k = s.value + 1
    · exact ⟨t, by rw [enter_ticket_self, hlast]⟩
    · have hkn' : k ≤ s.value + 1 := hkn
      obtain ⟨u, hu⟩ := h.ladder k hk (by omega)
      have hne : u ≠ t := by
        rintro rfl
        rw [hu] at ht
        cases ht
      exact ⟨u, by rw [enter_ticket_of_ne s t hne, hu]⟩
  pos u v hu := by
    by_cases hut : u = t
    · rw [hut, enter_ticket_self, some.injEq] at hu
      omega
    · rw [enter_ticket_of_ne s t hut] at hu
      exact h.pos u v hu
  awake u hu := by
    by_cases hut : u = t
    · rw [hut, enabled_enter_self] at hu
      cases hu
    · rw [enabled_enter_of_ne hut] at hu
      rw [enter_woken_of_ne s t hut]
      exact h.awake u (mayGo_mono (Nat.le_succ _) hu)

/-- **A party that begins to wait undoes a wake-up** exactly if it gets the ticket of one that may go on. -/
theorem kept_enter_iff (h : Inv s) (hkept : Kept s) (ht : s.ticket t = none) :
    Kept (s.enter t) ↔ ∀ u, s.enabled u = true → s.ticket u ≠ some (s.value + 1) := by
  constructor
  · intro hafter u hu hticket
    have hut : u ≠ t := by
      rintro rfl
      rw [hticket] at ht
      cases ht
    have hwoken : (s.enter t).woken u = true := by
      rw [enter_woken_of_ne s t hut]
      exact h.awake u hu
    have hgo := hafter u hwoken
    rw [enabled_enter_of_ne hut, hticket] at hgo
    exact absurd (of_decide_eq_true hgo) (Nat.lt_irrefl _)
  · intro hfree u hu
    by_cases hut : u = t
    · rw [hut, enter_woken_self] at hu
      cases hu
    · rw [enter_woken_of_ne s t hut] at hu
      have hgo := hkept u hu
      obtain ⟨v, hv, hlt⟩ := mayGo_eq_true_iff.mp hgo
      have hne : v ≠ s.value + 1 := fun heq => hfree u hgo (by rw [hv, heq])
      rw [enabled_enter_of_ne hut]
      exact mayGo_eq_true_iff.mpr ⟨v, hv, by omega⟩

end Party

end Btos.Lib.Tickets
