import Mathlib.Tactic.Common

/-!
# Resources with owners and shared resources

A store gives out resources (`φ`) and takes them back.  References (`ρ`) name resources; a resource is
named by one reference at most, unless it is a member of a group (`σ`), and then only references that
the group covers may name it.  Some resources are forbidden to some references: they serve the store
itself.

* `View.Sound` — **nothing that is free is named or held, and nothing is named twice** without being
  shared.

In all of them the store may have taken free resources for itself (`forbidden` grows by free ones).
-/

namespace Btos.Lib.Ownership

variable {ρ φ σ : Type*}

structure View (ρ φ σ : Type*) where
  refs : ρ → φ → Prop
  free : φ → Prop
  member : σ → φ → Prop
  covers : ρ → σ → Prop
  forbidden : ρ → φ → Prop

/-- Nothing free is in use, and nothing is used twice without being shared. -/
structure View.Sound (v : View ρ φ σ) : Prop where
  used : ∀ p f, v.refs p f → ¬v.free f
  allowed : ∀ p f, v.refs p f → ¬v.forbidden p f
  exclusive : ∀ p q f, v.refs p f → v.refs q f → p = q ∨ ∃ a, v.member a f
  member_used : ∀ a f, v.member a f → ¬v.free f
  member_allowed : ∀ a f p, v.member a f → ¬v.forbidden p f
  covered : ∀ p f a, v.refs p f → v.member a f → v.covers p a
  single : ∀ a b f, v.member a f → v.member b f → a = b

namespace View.Sound

variable {v v' : View ρ φ σ}

theorem still_allowed (h : v.Sound)
    (hforbidden : ∀ p f, v'.forbidden p f → v.forbidden p f ∨ v.free f) (hp : v.refs p f) :
    ¬v'.forbidden p f := fun hf => (hforbidden p f hf).elim (h.allowed p f hp) (h.used p f hp)

theorem member_still_allowed (h : v.Sound)
    (hforbidden : ∀ p f, v'.forbidden p f → v.forbidden p f ∨ v.free f) (hm : v.member a f) :
    ¬v'.forbidden p f := fun hf =>
  (hforbidden p f hf).elim (h.member_allowed a f p hm) (h.member_used a f hm)

/-- **A reference is given another resource**, one that no other reference names or one that is shared
with it. -/
theorem name (h : v.Sound) (p₀ : ρ) (f₀ : φ)
    (hrefs : ∀ p f, v'.refs p f → (p ≠ p₀ ∧ v.refs p f) ∨ (p = p₀ ∧ f = f₀)) (hfree : ∀ f, v'.free f → v.free f)
    (hforbidden : ∀ p f, v'.forbidden p f → v.forbidden p f ∨ v.free f)
    (hmember : ∀ a f, v'.member a f ↔ v.member a f) (hcovers : ∀ p a, v.covers p a → v'.covers p a)
    (hused : ¬v'.free f₀) (hallowed : ¬v'.forbidden p₀ f₀)
    (halone : ∀ p, p ≠ p₀ → v.refs p f₀ → ∃ a, v.member a f₀)
    (hcovered : ∀ a, v.member a f₀ → v'.covers p₀ a) : v'.Sound where
  used p f hp hf := by
    rcases hrefs p f hp with ⟨-, hold⟩ | ⟨-, rfl⟩
    · exact h.used p f hold (hfree f hf)
    · exact hused hf
  allowed p f hp hf := by
    rcases hrefs p f hp with ⟨-, hold⟩ | ⟨rfl, rfl⟩
    · exact h.still_allowed hforbidden hold hf
    · exact hallowed hf
  exclusive p q f hp hq := by
    simp only [hmember]
    rcases hrefs p f hp with ⟨hpne, hp⟩ | ⟨rfl, rfl⟩ <;>
      rcases hrefs q _ hq with ⟨hqne, hq⟩ | ⟨rfl, hf⟩
    · exact h.exclusive p q f hp hq
    · subst hf
      exact .inr (halone p hpne hp)
    · exact .inr (halone q hqne hq)
    · exact .inl rfl
  member_used a f hm hf := h.member_used a f ((hmember a f).1 hm) (hfree f hf)
  member_allowed a f p hm := h.member_still_allowed hforbidden ((hmember a f).1 hm)
  covered p f a hp hm := by
    rw [hmember] at hm
    rcases hrefs p f hp with ⟨-, hold⟩ | ⟨rfl, rfl⟩
    · exact hcovers p a (h.covered p f a hold hm)
    · exact hcovered a hm
  single a b f ha hb := h.single a b f ((hmember a f).1 ha) ((hmember b f).1 hb)

/-- **References and groups are given up**; a resource becomes free only if nothing names or holds it
any more. -/
theorem drop (h : v.Sound) (hrefs : ∀ p f, v'.refs p f → v.refs p f)
    (hfree : ∀ f, v'.free f → v.free f ∨ ((∀ p, ¬v'.refs p f) ∧ ∀ a, ¬v'.member a f))
    (hforbidden : ∀ p f, v'.forbidden p f → v.forbidden p f ∨ v.free f)
    (hmember : ∀ a f, v'.member a f → v.member a f)
    (hkept : ∀ p f a, v'.refs p f → v.member a f → v'.member a f)
    (hcovers : ∀ p f a, v'.refs p f → v'.member a f → v.covers p a → v'.covers p a) : v'.Sound where
  used p f hp hf := by
    rcases hfree f hf with hf | hf
    · exact h.used p f (hrefs p f hp) hf
    · exact hf.1 p hp
  allowed p f hp := h.still_allowed hforbidden (hrefs p f hp)
  exclusive p q f hp hq := by
    refine (h.exclusive p q f (hrefs p f hp) (hrefs q f hq)).imp_right ?_
    rintro ⟨a, ha⟩
    exact ⟨a, hkept p f a hp ha⟩
  member_used a f hm hf := by
    rcases hfree f hf with hf | hf
    · exact h.member_used a f (hmember a f hm) hf
    · exact hf.2 a hm
  member_allowed a f p hm := h.member_still_allowed hforbidden (hmember a f hm)
  covered p f a hp hm := hcovers p f a hp hm (h.covered p f a (hrefs p f hp) (hmember a f hm))
  single a b f ha hb := h.single a b f (hmember a f ha) (hmember b f hb)

/-- **A free resource joins a group.** -/
theorem enroll (h : v.Sound) (a₀ : σ) (hwas : v.free f₀) (hallowed : ∀ p, ¬v'.forbidden p f₀)
    (hrefs : ∀ p f, v'.refs p f → v.refs p f) (hfree : ∀ f, v'.free f → v.free f ∧ f ≠ f₀)
    (hforbidden : ∀ p f, v'.forbidden p f → v.forbidden p f ∨ v.free f)
    (hmember : ∀ a f, v'.member a f → v.member a f ∨ (a = a₀ ∧ f = f₀))
    (hkept : ∀ a f, v.member a f → v'.member a f)
    (hcovers : ∀ p a, v.covers p a → v'.covers p a) : v'.Sound where
  used p f hp hf := h.used p f (hrefs p f hp) (hfree f hf).1
  allowed p f hp := h.still_allowed hforbidden (hrefs p f hp)
  exclusive p q f hp hq := by
    refine (h.exclusive p q f (hrefs p f hp) (hrefs q f hq)).imp_right ?_
    rintro ⟨a, ha⟩
    exact ⟨a, hkept a f ha⟩
  member_used a f hm hf := by
    rcases hmember a f hm with hm | ⟨-, rfl⟩
    · exact h.member_used a f hm (hfree f hf).1
    · exact (hfree f hf).2 rfl
  member_allowed a f p hm hf := by
    rcases hmember a f hm with hm | ⟨-, rfl⟩
    · exact h.member_still_allowed hforbidden hm hf
    · exact hallowed p hf
  covered p f a hp hm := by
    rcases hmember a f hm with hm | ⟨-, rfl⟩
    · exact hcovers p a (h.covered p f a (hrefs p f hp) hm)
    · exact absurd hwas (h.used p f (hrefs p f hp))
  single a b f ha hb := by
    rcases hmember a f ha with ha | ⟨rfl, rfl⟩ <;> rcases hmember b _ hb with hb | ⟨rfl, hf⟩
    · exact h.single a b f ha hb
    · subst hf
      exact absurd hwas (h.member_used a f ha)
    · exact absurd hwas (h.member_used b f hb)
    · rfl

end View.Sound

end Btos.Lib.Ownership
