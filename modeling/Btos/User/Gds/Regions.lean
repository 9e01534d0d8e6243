import Btos.User.Gds.Geom

/-!
# Rectangles as sets of pixels

`user/libs/libgds/geom.cpp`: the two tests and `Intersection` against what they say about the pixels.

* `intersection` — **the code**.  The edges are returned where the width and the height belong;
* `PixelLaws` — **the laws**, `PixelsOk` — **the condition** on two rectangles under which they hold.
-/

namespace Btos.User.Gds

def intersection (r₁ r₂ : Rect) : Rect :=
  if !overlaps r₁ r₂ then ⟨0, 0, 0, 0⟩
  else ⟨max r₁.x r₂.x, max r₁.y r₂.y, min (u32 (r₁.x + r₁.w)) (u32 (r₂.x + r₂.w)),
    min (u32 (r₁.y + r₁.h)) (u32 (r₂.y + r₂.h))⟩

structure PixelLaws (r₁ r₂ : Rect) : Prop where
  overlaps_iff : overlaps r₁ r₂ = true ↔ (r₁.points ∩ r₂.points).Nonempty
  contains_iff : contains r₁ r₂ = true ↔ r₂.points ⊆ r₁.points
  intersection_eq : overlaps r₁ r₂ = true → (intersection r₁ r₂).points = r₁.points ∩ r₂.points

/-- The smaller of two end edges, as unsigned numbers, is the length from the larger of the two first edges:
that edge is zero, or one end is negative and the other, which is returned, happens to be the length. -/
def SideOk (a₁ e₁ a₂ e₂ : ℤ) : Prop := max a₁ a₂ = 0 ∨ (min e₁ e₂ < 0 ∧ max e₁ e₂ = min e₁ e₂ - max a₁ a₂)

def PixelsOk (r₁ r₂ : Rect) : Prop :=
  ¬Mistaken r₂ r₁ ∧ (Within r₂ r₁ → Inside r₂ r₁ ∨ (r₁ = r₂ ∧ r₁.x = r₁.y)) ∧
    (Overlap r₁ r₂ → SideOk r₁.x (r₁.x + r₁.w) r₂.x (r₂.x + r₂.w) ∧
      SideOk r₁.y (r₁.y + r₁.h) r₂.y (r₂.y + r₂.h))

variable {r₁ r₂ : Rect}

theorem overlap_iff_nonempty (h₁ : r₁.Fits) (h₂ : r₂.Fits) :
    Overlap r₁ r₂ ↔ (r₁.points ∩ r₂.points).Nonempty := by
  have hw1 := h₁.w_pos
  have hh1 := h₁.h_pos
  have hw2 := h₂.w_pos
  have hh2 := h₂.h_pos
  simp only [Set.Nonempty, Set.mem_inter_iff, Rect.mem_points, Overlap]
  constructor
  · intro hover
    exact ⟨(max r₁.x r₂.x, max r₁.y r₂.y), by omega⟩
  · rintro ⟨p, hp⟩
    omega

/-- **`Contains` is the subset** but for what the equality mistakes and for common edges. -/
theorem contains_law_iff (h₁ : r₁.Fits) (h₂ : r₂.Fits) : (contains r₁ r₂ = true ↔ r₂.points ⊆ r₁.points) ↔
      ¬Mistaken r₂ r₁ ∧ (Within r₂ r₁ → Inside r₂ r₁ ∨ (r₁ = r₂ ∧ r₁.x = r₁.y)) := by
  have hin := @Inside.within r₂ r₁
  have hmis := @Mistaken.not_within r₂ r₁
  have hself : r₁ = r₂ → Within r₂ r₁ := by
    rintro rfl
    exact Within.refl r₁
  rw [contains_iff h₂ h₁, eq_iff, subset_iff h₂]
  tauto

/-- One side of the intersection: the length is right where `SideOk` says. -/
theorem side_iff (ha₁ : -2 ^ 31 ≤ a₁) (ha₂ : -2 ^ 31 ≤ a₂) (h₁ : max a₁ a₂ < e₁) (h₂ : max a₁ a₂ < e₂)
    (he₁ : e₁ < 2 ^ 31) (he₂ : e₂ < 2 ^ 31) :
    min (u32 e₁) (u32 e₂) = min e₁ e₂ - max a₁ a₂ ↔ SideOk a₁ e₁ a₂ e₂ := by
  unfold SideOk u32
  omega

theorem intersection_law_iff (h₁ : r₁.Fits) (h₂ : r₂.Fits) (h : Overlap r₁ r₂) :
    (intersection r₁ r₂).points = r₁.points ∩ r₂.points ↔
      SideOk r₁.x (r₁.x + r₁.w) r₂.x (r₂.x + r₂.w) ∧ SideOk r₁.y (r₁.y + r₁.h) r₂.y (r₂.y + r₂.h) := by
  have hover := (overlaps_iff h₁ h₂).2 h
  obtain ⟨hx1, hx2, hy1, hy2⟩ := h
  obtain ⟨hw1, hh1, hl1, ht1, hr1, hb1⟩ := h₁
  obtain ⟨hw2, hh2, hl2, ht2, hr2, hb2⟩ := h₂
  rw [← side_iff hl1 hl2 (by omega) (by omega) hr1 hr2, ← side_iff ht1 ht2 (by omega) (by omega) hb1 hb2]
  simp only [intersection, hover, Bool.not_true, Bool.false_eq_true, if_false, Set.ext_iff, Rect.mem_points,
    Set.mem_inter_iff, Prod.forall]
  generalize min (u32 (r₁.x + r₁.w)) (u32 (r₂.x + r₂.w)) = w
  generalize min (u32 (r₁.y + r₁.h)) (u32 (r₂.y + r₂.h)) = h
  constructor
  · intro hall
    -- the last pixel of each of the two, in the first row and in the first column
    have hrow := hall (max r₁.x r₂.x + w - 1) (max r₁.y r₂.y)
    have hcol := hall (max r₁.x r₂.x) (max r₁.y r₂.y + h - 1)
    have hright := hall (min (r₁.x + r₁.w) (r₂.x + r₂.w) - 1) (max r₁.y r₂.y)
    have hlow := hall (max r₁.x r₂.x) (min (r₁.y + r₁.h) (r₂.y + r₂.h) - 1)
    omega
  · rintro ⟨hw, hh⟩ x y
    omega

/-- **When the tests and the intersection say what they mean for the pixels.** -/
theorem pixelLaws_iff (r₁ r₂ : Rect) (h₁ : r₁.Fits) (h₂ : r₂.Fits) : PixelLaws r₁ r₂ ↔ PixelsOk r₁ r₂ := by
  have hover : overlaps r₁ r₂ = true ↔ Overlap r₁ r₂ := overlaps_iff h₁ h₂
  constructor
  · rintro ⟨-, hcont, hinter⟩
    obtain ⟨hmis, hwithin⟩ := (contains_law_iff h₁ h₂).1 hcont
    exact ⟨hmis, hwithin, fun h => (intersection_law_iff h₁ h₂ h).1 (hinter (hover.2 h))⟩
  · rintro ⟨hmis, hwithin, hside⟩
    refine ⟨hover.trans (overlap_iff_nonempty h₁ h₂), (contains_law_iff h₁ h₂).2 ⟨hmis, hwithin⟩, fun h => ?_⟩
    exact (intersection_law_iff h₁ h₂ (hover.1 h)).2 (hside (hover.1 h))

/-- Two rectangles that begin at the origin. -/
theorem pixelLaws_iff_origin : PixelLaws ⟨0, 0, 10, 10⟩ ⟨0, 0, 5, 20⟩ :=
  (pixelLaws_iff _ _ (by constructor <;> decide) (by constructor <;> decide)).2
    ⟨by simp [Mistaken], by simp [Within], fun _ => ⟨.inl rfl, .inl rfl⟩⟩

/-- **Wrong answers.**  A rectangle does not contain itself, it contains another one that is beside it, and the
width of an intersection is a right edge. -/
theorem pixelLaws_wrong :
    contains ⟨5, 0, 10, 10⟩ ⟨5, 0, 10, 10⟩ = false ∧ contains ⟨0, 0, 10, 10⟩ ⟨5, 0, 10, 10⟩ = true ∧
      ((12, 0) : ℤ × ℤ) ∈ (Rect.mk 5 0 10 10).points \ (Rect.mk 0 0 10 10).points ∧
      intersection ⟨5, 5, 10, 10⟩ ⟨5, 5, 10, 10⟩ = ⟨5, 5, 15, 15⟩ :=
  ⟨by decide, by decide, by simp [Rect.points], by decide⟩

end Btos.User.Gds
