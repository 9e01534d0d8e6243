import Mathlib.Tactic.Common
import Mathlib.Algebra.Order.Ring.Int
import Mathlib.Data.Set.Lattice
import Mathlib.Order.CompletePartialOrder

/-!
# Rectangles of the window system

`user/libs/libgds/geom.cpp`.  Coordinates are `int32_t`, widths and heights `uint32_t`; a sum of the two is a
`uint32_t`, so that edges are compared as unsigned numbers.

* `Rect.eq`, `inRect`, `overlaps`, `contains`, `subtractRect`, `subtractRects` — **the code**.  The equality
  compares the left edge of one rectangle with the upper edge of the other;
* `SubtractOk` — **the condition on two rectangles**: where they overlap, one lies in the inner part of the
  other, or the equality does not take them for the same and the right edges have the same sign, and the
  lower edges too.
-/

namespace Btos.User.Gds

/-! ### Machine integers -/

/-- The value as an `int32_t`. -/
def i32 (z : ℤ) : ℤ := (z + 2 ^ 31) % 2 ^ 32 - 2 ^ 31

/-- The value as a `uint32_t`. -/
def u32 (z : ℤ) : ℤ := z % 2 ^ 32

theorem i32_of_range (h₁ : -2 ^ 31 ≤ z) (h₂ : z < 2 ^ 31) : i32 z = z := by
  unfold i32
  omega

theorem i32_add_i32 (a b : ℤ) : i32 (a + i32 b) = i32 (a + b) := by
  unfold i32
  omega

theorem i32_u32 (z : ℤ) : i32 (u32 z) = i32 z := by
  unfold i32 u32
  omega

theorem u32_of_nonneg (h₁ : 0 ≤ z) (h₂ : z < 2 ^ 32) : u32 z = z := by
  unfold u32
  omega

/-! ### The code -/

structure Rect where
  x : ℤ
  y : ℤ
  w : ℤ
  h : ℤ
  deriving DecidableEq, Repr

/-- `operator==`. -/
def Rect.eq (r₁ r₂ : Rect) : Bool := r₁.x == r₂.y && r₁.y == r₂.y && r₁.w == r₂.w && r₁.h == r₂.h

def inRect (x y : ℤ) (r : Rect) : Bool :=
  x ≥ r.x && x < i32 (r.x + i32 r.w) && y ≥ r.y && y < i32 (r.y + i32 r.h)

def overlaps (r₁ r₂ : Rect) : Bool :=
  !(i32 (i32 (r₁.x + i32 r₁.w) - 1) < r₂.x || i32 (i32 (r₁.y + i32 r₁.h) - 1) < r₂.y ||
    r₁.x > i32 (i32 (r₂.x + i32 r₂.w) - 1) || r₁.y > i32 (i32 (r₂.y + i32 r₂.h) - 1))

def contains (r₁ r₂ : Rect) : Bool :=
  if r₁.eq r₂ then true
  else inRect r₂.x r₂.y r₁ && inRect (i32 (u32 (r₂.x + r₂.w))) (i32 (u32 (r₂.y + r₂.h))) r₁

/-- **`SubtractRect`** of two rectangles. -/
def subtractRect (r₁ r₂ : Rect) : List Rect :=
  if !overlaps r₁ r₂ then [r₁]
  else if contains r₂ r₁ then []
  else
    let r₁r := u32 (r₁.x + r₁.w)
    let r₁b := u32 (r₁.y + r₁.h)
    let r₂r := u32 (r₂.x + r₂.w)
    let r₂b := u32 (r₂.y + r₂.h)
    let side := max r₁.y r₂.y
    let top := if r₁.y < r₂.y then [⟨r₁.x, r₁.y, r₁.w, u32 (r₂.y - r₁.y)⟩] else []
    let left := if r₁.x < r₂.x then
      [⟨r₁.x, side, u32 (r₂.x - r₁.x), u32 (min r₁b r₂b - u32 side)⟩] else []
    let right := if r₂r < r₁r then [⟨i32 r₂r, side, u32 (r₁r - r₂r), u32 (min r₁b r₂b - u32 side)⟩] else []
    let bottom := if r₂b < r₁b then [⟨r₁.x, i32 r₂b, r₁.w, u32 (r₁b - r₂b)⟩] else []
    top ++ left ++ right ++ bottom

/-- `SubtractRect` from a list. -/
def subtractRects (rects : List Rect) (r : Rect) : List Rect := rects.flatMap fun f => subtractRect f r

/-! ### What it is for -/

def Rect.points (r : Rect) : Set (ℤ × ℤ) :=
  { p | r.x ≤ p.1 ∧ p.1 < r.x + r.w ∧ r.y ≤ p.2 ∧ p.2 < r.y + r.h }

theorem Rect.mem_points {r : Rect} {p : ℤ × ℤ} :
    p ∈ r.points ↔ r.x ≤ p.1 ∧ p.1 < r.x + r.w ∧ r.y ≤ p.2 ∧ p.2 < r.y + r.h := Iff.rfl

def union (rects : List Rect) : Set (ℤ × ℤ) := { p | ∃ r ∈ rects, p ∈ r.points }

/-- A rectangle that is not empty, with edges that are `int32_t`s. -/
structure Rect.Fits (r : Rect) : Prop where
  w_pos : 0 < r.w
  h_pos : 0 < r.h
  left : -2 ^ 31 ≤ r.x
  top : -2 ^ 31 ≤ r.y
  right : r.x + r.w < 2 ^ 31
  bottom : r.y + r.h < 2 ^ 31

structure Subtracted (r₁ r₂ : Rect) (parts : List Rect) : Prop where
  positive : ∀ r ∈ parts, 0 < r.w ∧ 0 < r.h
  disjoint : parts.Pairwise fun a b => Disjoint a.points b.points
  union : union parts = r₁.points \ r₂.points

def Overlap (r₁ r₂ : Rect) : Prop :=
  r₁.x < r₂.x + r₂.w ∧ r₂.x < r₁.x + r₁.w ∧ r₁.y < r₂.y + r₂.h ∧ r₂.y < r₁.y + r₁.h

/-- The first rectangle lies in the second, and ends before it does. -/
def Inside (r₁ r₂ : Rect) : Prop :=
  r₂.x ≤ r₁.x ∧ r₁.x + r₁.w < r₂.x + r₂.w ∧ r₂.y ≤ r₁.y ∧ r₁.y + r₁.h < r₂.y + r₂.h

def Within (r₁ r₂ : Rect) : Prop :=
  r₂.x ≤ r₁.x ∧ r₁.x + r₁.w ≤ r₂.x + r₂.w ∧ r₂.y ≤ r₁.y ∧ r₁.y + r₁.h ≤ r₂.y + r₂.h

/-- Different rectangles that the equality takes for the same. -/
def Mistaken (r₁ r₂ : Rect) : Prop := r₁.x ≠ r₂.x ∧ r₂.x = r₁.y ∧ r₂.y = r₁.y ∧ r₁.w = r₂.w ∧ r₁.h = r₂.h

def SubtractOk (r₁ r₂ : Rect) : Prop :=
  Overlap r₁ r₂ → Inside r₁ r₂ ∨ (¬Mistaken r₁ r₂ ∧ (r₁.x + r₁.w < 0 ↔ r₂.x + r₂.w < 0) ∧
    (r₁.y + r₁.h < 0 ↔ r₂.y + r₂.h < 0))

/-! ### The tests -/

section

variable {r r₁ r₂ : Rect}

theorem inRect_iff (hr : r.Fits) (x y : ℤ) : inRect x y r = true ↔ (x, y) ∈ r.points := by
  obtain ⟨hw, hh, hl, ht, hr, hb⟩ := hr
  simp only [inRect, i32_add_i32, Rect.mem_points, Bool.and_eq_true, decide_eq_true_eq]
  rw [i32_of_range (by omega) hr, i32_of_range (by omega) hb]
  omega

theorem overlaps_iff (h₁ : r₁.Fits) (h₂ : r₂.Fits) : overlaps r₁ r₂ = true ↔ Overlap r₁ r₂ := by
  obtain ⟨hw1, hh1, hl1, ht1, hr1, hb1⟩ := h₁
  obtain ⟨hw2, hh2, hl2, ht2, hr2, hb2⟩ := h₂
  have hedge : ∀ a b : ℤ, 0 < b → -2 ^ 31 ≤ a → a + b < 2 ^ 31 → i32 (i32 (a + i32 b) - 1) = a + b - 1 := by
    intro a b hb ha hab
    rw [i32_add_i32, i32_of_range (by omega) hab, i32_of_range (by omega) (by omega)]
  simp only [overlaps, Overlap, hedge _ _ hw1 hl1 hr1, hedge _ _ hh1 ht1 hb1, hedge _ _ hw2 hl2 hr2,
    hedge _ _ hh2 ht2 hb2, Bool.not_eq_true', Bool.or_eq_false_iff, decide_eq_false_iff_not]
  omega

theorem contains_iff (h₁ : r₁.Fits) (h₂ : r₂.Fits) :
    contains r₂ r₁ = true ↔ r₂.eq r₁ = true ∨ Inside r₁ r₂ := by
  obtain ⟨hw1, hh1, hl1, ht1, hr1, hb1⟩ := h₁
  have hcorner : i32 (u32 (r₁.x + r₁.w)) = r₁.x + r₁.w ∧ i32 (u32 (r₁.y + r₁.h)) = r₁.y + r₁.h := by
    rw [i32_u32, i32_u32, i32_of_range (by omega) hr1, i32_of_range (by omega) hb1]
    exact ⟨rfl, rfl⟩
  unfold contains
  split
  · rename_i heq
    simp [heq]
  · rename_i heq
    rw [Bool.and_eq_true, inRect_iff h₂, inRect_iff h₂]
    simp only [heq, Bool.false_eq_true, false_or, Inside, Rect.mem_points]
    omega

theorem subset_iff (h₁ : r₁.Fits) : r₁.points ⊆ r₂.points ↔ Within r₁ r₂ := by
  have hw := h₁.w_pos
  have hh := h₁.h_pos
  simp only [Set.subset_def, Rect.mem_points, Prod.forall, Within]
  constructor
  · intro hsub
    have hfirst := hsub r₁.x r₁.y
    have hlast := hsub (r₁.x + r₁.w - 1) (r₁.y + r₁.h - 1)
    omega
  · intro hin x y hp
    omega

theorem eq_iff : r₁.eq r₂ = true ↔ Mistaken r₂ r₁ ∨ (r₁ = r₂ ∧ r₁.x = r₁.y) := by
  cases r₁
  cases r₂
  simp only [Rect.eq, Mistaken, Bool.and_eq_true, beq_iff_eq, Rect.mk.injEq]
  omega

theorem Within.refl (r : Rect) : Within r r := by simp [Within]

theorem Inside.within (h : Inside r₁ r₂) : Within r₁ r₂ := by
  unfold Inside Within at *
  omega

theorem Mistaken.not_within (h : Mistaken r₁ r₂) : ¬Within r₁ r₂ := by
  unfold Mistaken Within at *
  omega

end

/-! ### The strips over the integers -/

/-- The four strips, computed without bounds. -/
def strips (r₁ r₂ : Rect) : List Rect :=
  let side := max r₁.y r₂.y
  let low := min (r₁.y + r₁.h) (r₂.y + r₂.h)
  (if r₁.y < r₂.y then [⟨r₁.x, r₁.y, r₁.w, r₂.y - r₁.y⟩] else []) ++
    (if r₁.x < r₂.x then [⟨r₁.x, side, r₂.x - r₁.x, low - side⟩] else []) ++
    (if r₂.x + r₂.w < r₁.x + r₁.w then
      [⟨r₂.x + r₂.w, side, r₁.x + r₁.w - (r₂.x + r₂.w), low - side⟩] else []) ++
    (if r₂.y + r₂.h < r₁.y + r₁.h then
      [⟨r₁.x, r₂.y + r₂.h, r₁.w, r₁.y + r₁.h - (r₂.y + r₂.h)⟩] else [])

theorem mem_ite_singleton [Decidable c] : a ∈ (if c then [b] else []) ↔ c ∧ a = b := by
  split <;> simp_all

/-- **The strips are what is left**, for two rectangles that overlap. -/
theorem strips_subtracted (h₁ : r₁.Fits) (h₂ : r₂.Fits) (h : Overlap r₁ r₂) :
    Subtracted r₁ r₂ (strips r₁ r₂) := by
  obtain ⟨hx1, hx2, hy1, hy2⟩ := h
  have hw1 := h₁.w_pos
  have hh1 := h₁.h_pos
  have hw2 := h₂.w_pos
  have hh2 := h₂.h_pos
  constructor
  · intro r hr
    simp only [strips, List.mem_append, mem_ite_singleton] at hr
    rcases hr with ((⟨hc, rfl⟩ | ⟨hc, rfl⟩) | ⟨hc, rfl⟩) | ⟨hc, rfl⟩ <;> constructor <;> simp only <;> omega
  · have hsep : ∀ a b : Rect, (∀ p, p ∈ a.points → p ∉ b.points) → Disjoint a.points b.points :=
      fun a b hab => Set.disjoint_left.2 fun p ha => hab p ha
    have hpair : ∀ (c : Prop) [Decidable c] (a : Rect),
        (if c then [a] else []).Pairwise fun a b => Disjoint a.points b.points := by
      intro c _ a
      split <;> simp
    simp only [strips, List.pairwise_append, hpair, true_and, List.mem_append, mem_ite_singleton]
    refine ⟨⟨?_, ?_⟩, ?_⟩
    · rintro a ⟨hc, rfl⟩ b ⟨hd, rfl⟩
      apply hsep
      intro p
      simp only [Rect.mem_points]
      omega
    · rintro a (⟨hc, rfl⟩ | ⟨hc, rfl⟩) b ⟨hd, rfl⟩ <;>
      · apply hsep
        intro p
        simp only [Rect.mem_points]
        omega
    · rintro a ((⟨hc, rfl⟩ | ⟨hc, rfl⟩) | ⟨hc, rfl⟩) b ⟨hd, rfl⟩ <;>
      · apply hsep
        intro p
        simp only [Rect.mem_points]
        omega
  · ext p
    simp only [union, strips, List.mem_append, mem_ite_singleton, Rect.mem_points, Set.mem_ofPred_eq,
      Set.mem_sdiff, or_and_right, exists_or, and_assoc, exists_eq_left, exists_and_left]
    omega

/-! ### Unsigned edges -/

section

variable {a b s : ℤ}

theorem u32_lt_iff (ha : -2 ^ 31 ≤ a ∧ a < 2 ^ 31) (hb : -2 ^ 31 ≤ b ∧ b < 2 ^ 31)
    (h : a < 0 ↔ b < 0) : u32 a < u32 b ↔ a < b := by
  unfold u32
  omega

theorem min_u32 (ha : -2 ^ 31 ≤ a ∧ a < 2 ^ 31) (hb : -2 ^ 31 ≤ b ∧ b < 2 ^ 31)
    (h : a < 0 ↔ b < 0) : min (u32 a) (u32 b) = u32 (min a b) := by
  rcases min_cases a b with ⟨hmin, hle⟩ | ⟨hmin, hlt⟩
  · rw [hmin]
    exact min_eq_left (by unfold u32; omega)
  · rw [hmin]
    exact min_eq_right (by unfold u32; omega)

theorem u32_sub_u32 (h₁ : 0 ≤ a - b) (h₂ : a - b < 2 ^ 32) : u32 (u32 a - u32 b) = a - b := by
  unfold u32
  omega

/-- **Edges of different signs** are compared the wrong way round. -/
theorem u32_lt_of_signs (ha : -2 ^ 31 ≤ a) (hneg : a < 0) (hb : 0 ≤ b) (hb' : b < 2 ^ 31) : u32 b < u32 a := by
  unfold u32
  omega

end

section Code

variable {r₁ r₂ : Rect}

theorem Rect.Fits.edges (h : r₁.Fits) :
    (-2 ^ 31 ≤ r₁.x + r₁.w ∧ r₁.x + r₁.w < 2 ^ 31) ∧ (-2 ^ 31 ≤ r₁.y + r₁.h ∧ r₁.y + r₁.h < 2 ^ 31) := by
  obtain ⟨hw, hh, hl, ht, hr, hb⟩ := h
  omega

/-- **The code computes the strips** where the edges have the same signs. -/
theorem subtractRect_eq_strips (h₁ : r₁.Fits) (h₂ : r₂.Fits) (h : Overlap r₁ r₂)
    (hcont : contains r₂ r₁ = false) (hx : r₁.x + r₁.w < 0 ↔ r₂.x + r₂.w < 0)
    (hy : r₁.y + r₁.h < 0 ↔ r₂.y + r₂.h < 0) : subtractRect r₁ r₂ = strips r₁ r₂ := by
  have hover := (overlaps_iff h₁ h₂).2 h
  obtain ⟨hx1, hx2, hy1, hy2⟩ := h
  obtain ⟨hright1, hbottom1⟩ := h₁.edges
  obtain ⟨hright2, hbottom2⟩ := h₂.edges
  obtain ⟨hw1, hh1, hl1, ht1, -, -⟩ := h₁
  obtain ⟨hw2, hh2, hl2, ht2, -, -⟩ := h₂
  -- the height of the strips at the sides
  have hheight : u32 (min (u32 (r₁.y + r₁.h)) (u32 (r₂.y + r₂.h)) - u32 (max r₁.y r₂.y)) =
      min (r₁.y + r₁.h) (r₂.y + r₂.h) - max r₁.y r₂.y := by
    rw [min_u32 hbottom1 hbottom2 hy, u32_sub_u32 (by omega) (by omega)]
  have hcorner : i32 (u32 (r₂.x + r₂.w)) = r₂.x + r₂.w ∧ i32 (u32 (r₂.y + r₂.h)) = r₂.y + r₂.h := by
    rw [i32_u32, i32_u32, i32_of_range hright2.1 hright2.2, i32_of_range hbottom2.1 hbottom2.2]
    exact ⟨rfl, rfl⟩
  simp only [subtractRect, strips, hover, hcont, Bool.not_true, Bool.false_eq_true, if_false, hheight,
    hcorner, u32_lt_iff hright2 hright1 hx.symm, u32_lt_iff hbottom2 hbottom1 hy.symm]
  refine congrArg₂ _ (congrArg₂ _ (congrArg₂ _ ?_ ?_) ?_) ?_ <;> refine ite_congr rfl (fun hc => ?_) fun _ => rfl
  · rw [u32_of_nonneg (by omega) (by omega)]
  · rw [u32_of_nonneg (by omega) (by omega)]
  · rw [u32_sub_u32 (by omega) (by omega)]
  · rw [u32_sub_u32 (by omega) (by omega)]

theorem subtracted_self (hdisj : ¬Overlap r₁ r₂) (h₁ : r₁.Fits) : Subtracted r₁ r₂ [r₁] := by
  constructor
  · simp [h₁.w_pos, h₁.h_pos]
  · simp
  · ext p
    simp only [union, List.mem_singleton, exists_eq_left, Set.mem_sdiff, Rect.mem_points, Set.mem_ofPred_eq]
    unfold Overlap at hdisj
    omega

theorem subtracted_nil_iff (h₁ : r₁.Fits) : Subtracted r₁ r₂ [] ↔ Within r₁ r₂ := by
  rw [← subset_iff h₁, ← Set.sdiff_eq_empty]
  have hnil : union [] = ∅ := by simp [union]
  exact ⟨fun h => h.union ▸ hnil, fun h => ⟨by simp, by simp, by rw [hnil, h]⟩⟩

theorem subtractRect_contains (h₁ : r₁.Fits) (h₂ : r₂.Fits) (hover : Overlap r₁ r₂)
    (hcont : contains r₂ r₁ = true) : subtractRect r₁ r₂ = [] := by
  simp [subtractRect, (overlaps_iff h₁ h₂).2 hover, hcont]

/-- **Under the condition the subtraction is right.** -/
theorem SubtractOk.subtracted (h : SubtractOk r₁ r₂) (h₁ : r₁.Fits) (h₂ : r₂.Fits) :
    Subtracted r₁ r₂ (subtractRect r₁ r₂) := by
  by_cases hover : Overlap r₁ r₂
  · by_cases hcont : contains r₂ r₁ = true
    · rw [subtractRect_contains h₁ h₂ hover hcont, subtracted_nil_iff h₁]
      rcases (contains_iff h₁ h₂).1 hcont with heq | hin
      · rcases eq_iff.1 heq with hmis | ⟨rfl, -⟩
        · exact ((h hover).resolve_right fun hok => hok.1 hmis).within
        · exact Within.refl _
      · exact hin.within
    · rcases h hover with hin | ⟨-, hx, hy⟩
      · exact absurd ((contains_iff h₁ h₂).2 (.inr hin)) hcont
      · rw [subtractRect_eq_strips h₁ h₂ hover (Bool.eq_false_of_not_eq_true hcont) hx hy]
        exact strips_subtracted h₁ h₂ hover
  · have hno : overlaps r₁ r₂ = false := by
      rw [← Bool.not_eq_true, overlaps_iff h₁ h₂]
      exact hover
    rw [show subtractRect r₁ r₂ = [r₁] by simp [subtractRect, hno]]
    exact subtracted_self hover h₁

theorem Subtracted.mem_iff (h : Subtracted r₁ r₂ parts) (p : ℤ × ℤ) :
    (∃ r ∈ parts, p ∈ r.points) ↔ p ∈ r₁.points ∧ p ∉ r₂.points := by
  rw [← Set.mem_sdiff, ← h.union]
  rfl

theorem mem_subtractRect_iff (h₁ : r₁.Fits) (h₂ : r₂.Fits) (h : Overlap r₁ r₂)
    (hcont : contains r₂ r₁ = false) {r : Rect} : r ∈ subtractRect r₁ r₂ ↔
      (((r₁.y < r₂.y ∧ r = ⟨r₁.x, r₁.y, r₁.w, u32 (r₂.y - r₁.y)⟩) ∨
        (r₁.x < r₂.x ∧ r = ⟨r₁.x, max r₁.y r₂.y, u32 (r₂.x - r₁.x),
          u32 (min (u32 (r₁.y + r₁.h)) (u32 (r₂.y + r₂.h)) - u32 (max r₁.y r₂.y))⟩)) ∨
        (u32 (r₂.x + r₂.w) < u32 (r₁.x + r₁.w) ∧ r = ⟨r₂.x + r₂.w, max r₁.y r₂.y,
          u32 (u32 (r₁.x + r₁.w) - u32 (r₂.x + r₂.w)),
          u32 (min (u32 (r₁.y + r₁.h)) (u32 (r₂.y + r₂.h)) - u32 (max r₁.y r₂.y))⟩)) ∨
        (u32 (r₂.y + r₂.h) < u32 (r₁.y + r₁.h) ∧ r = ⟨r₁.x, r₂.y + r₂.h, r₁.w,
          u32 (u32 (r₁.y + r₁.h) - u32 (r₂.y + r₂.h))⟩) := by
  have hover := (overlaps_iff h₁ h₂).2 h
  obtain ⟨hright, hbottom⟩ := h₂.edges
  simp only [subtractRect, hover, hcont, Bool.not_true, Bool.false_eq_true, if_false, List.mem_append,
    mem_ite_singleton, i32_u32, i32_of_range hright.1 hright.2, i32_of_range hbottom.1 hbottom.2]

/-- A part with a point that is neither above the second rectangle nor to the left of it is at the right of it
or below it. -/
theorem right_or_below (h₁ : r₁.Fits) (h₂ : r₂.Fits) (hover : Overlap r₁ r₂) (hcont : contains r₂ r₁ = false)
    (hr : r ∈ subtractRect r₁ r₂) (hp : p ∈ r.points) (hx : r₂.x ≤ p.1) (hy : r₂.y ≤ p.2) :
    (u32 (r₂.x + r₂.w) < u32 (r₁.x + r₁.w) ∧ r₂.x + r₂.w ≤ p.1) ∨
      u32 (r₂.y + r₂.h) < u32 (r₁.y + r₁.h) ∧ r₂.y + r₂.h ≤ p.2 := by
  rcases (mem_subtractRect_iff h₁ h₂ hover hcont).1 hr with ((⟨hc, rfl⟩ | ⟨hc, rfl⟩) | ⟨hc, rfl⟩) | ⟨hc, rfl⟩
  · have htop : u32 (r₂.y - r₁.y) = r₂.y - r₁.y :=
      u32_of_nonneg (by omega) (by have := h₁.top; have := h₂.bottom; have := h₂.h_pos; omega)
    simp only [Rect.mem_points, htop] at hp
    omega
  · have hleft : u32 (r₂.x - r₁.x) = r₂.x - r₁.x :=
      u32_of_nonneg (by omega) (by have := h₁.left; have := h₂.right; have := h₂.w_pos; omega)
    simp only [Rect.mem_points, hleft] at hp
    omega
  · exact .inl ⟨hc, hp.1⟩
  · exact .inr ⟨hc, hp.2.2.1⟩

theorem Subtracted.corner (h : Subtracted r₁ r₂ parts) (hr : r ∈ parts) : (r.x, r.y) ∈ r₁.points := by
  obtain ⟨hw, hh⟩ := h.positive r hr
  refine ((h.mem_iff _).1 ⟨r, hr, ?_⟩).1
  simp only [Rect.mem_points]
  omega

/-- Edges of different signs: the strip at the right, or below, is there when it should not be, or is missing. -/
theorem Subtracted.signs (h₁ : r₁.Fits) (h₂ : r₂.Fits) (hover : Overlap r₁ r₂)
    (hcont : contains r₂ r₁ = false) (h : Subtracted r₁ r₂ (subtractRect r₁ r₂)) :
    (r₁.x + r₁.w < 0 ↔ r₂.x + r₂.w < 0) ∧ (r₁.y + r₁.h < 0 ↔ r₂.y + r₂.h < 0) := by
  have hmem := @mem_subtractRect_iff r₁ r₂ h₁ h₂ hover hcont
  obtain ⟨hright1, hbottom1⟩ := h₁.edges
  obtain ⟨hright2, hbottom2⟩ := h₂.edges
  have hcorner : ∀ {r}, r ∈ subtractRect r₁ r₂ → _ := fun hr => h.corner hr
  -- a point that is left of the first rectangle, behind the corner of the second
  have hpoint : ∀ x y, (x, y) ∈ r₁.points → (x, y) ∉ r₂.points → r₂.x ≤ x → r₂.y ≤ y →
      (u32 (r₂.x + r₂.w) < u32 (r₁.x + r₁.w) ∧ r₂.x + r₂.w ≤ x) ∨
        u32 (r₂.y + r₂.h) < u32 (r₁.y + r₁.h) ∧ r₂.y + r₂.h ≤ y := by
    intro x y hin hout hx hy
    obtain ⟨r, hr, hp⟩ := (h.mem_iff (x, y)).2 ⟨hin, hout⟩
    exact right_or_below h₁ h₂ hover hcont hr hp hx hy
  obtain ⟨hx1, hx2, hy1, hy2⟩ := hover
  obtain ⟨hw1, hh1, -⟩ := h₁
  obtain ⟨hw2, hh2, -⟩ := h₂
  simp only [Rect.mem_points] at hcorner hpoint
  refine ⟨⟨fun hneg => ?_, fun hneg => ?_⟩, ⟨fun hneg => ?_, fun hneg => ?_⟩⟩ <;> by_contra hpos
  · have hlt := u32_lt_of_signs hright1.1 hneg (Int.not_lt.1 hpos) hright2.2
    have hin := hcorner (hmem.2 (.inl (.inr ⟨hlt, rfl⟩)))
    simp only at hin
    omega
  · have hlt := u32_lt_of_signs hright2.1 hneg (Int.not_lt.1 hpos) hright1.2
    have hpart := hpoint (max r₁.x (r₂.x + r₂.w)) (max r₁.y r₂.y)
    omega
  · have hlt := u32_lt_of_signs hbottom1.1 hneg (Int.not_lt.1 hpos) hbottom2.2
    have hin := hcorner (hmem.2 (.inr ⟨hlt, rfl⟩))
    simp only at hin
    omega
  · have hlt := u32_lt_of_signs hbottom2.1 hneg (Int.not_lt.1 hpos) hbottom1.2
    have hpart := hpoint (max r₁.x r₂.x) (max r₁.y (r₂.y + r₂.h))
    omega

/-- **A subtraction that is right meets the condition.** -/
theorem SubtractOk.of_subtracted (h₁ : r₁.Fits) (h₂ : r₂.Fits)
    (h : Subtracted r₁ r₂ (subtractRect r₁ r₂)) : SubtractOk r₁ r₂ := by
  intro hover
  by_cases hcont : contains r₂ r₁ = true
  · -- nothing is left, so nothing must be
    rw [subtractRect_contains h₁ h₂ hover hcont, subtracted_nil_iff h₁] at h
    rcases (contains_iff h₁ h₂).1 hcont with heq | hin
    · rcases eq_iff.1 heq with hmis | ⟨rfl, -⟩
      · exact absurd h hmis.not_within
      · exact .inr ⟨fun hmis => hmis.1 rfl, Iff.rfl, Iff.rfl⟩
    · exact .inl hin
  · refine .inr ⟨fun hmis => hcont ?_, h.signs h₁ h₂ hover (Bool.eq_false_of_not_eq_true hcont)⟩
    exact (contains_iff h₁ h₂).2 (.inl (eq_iff.2 (.inl hmis)))

end Code

/-! ### The result -/

/-- **When a subtraction is right.**  For rectangles that are not empty, with edges that are `int32_t`s, the
parts of one that are returned are disjoint, not empty, and have exactly the points that are not in the other,
if and only if the two meet the condition.  From a list whose rectangles meet it, the points of the rectangle
are removed and no others. -/
theorem subtractRect_right_iff (r : Rect) (hr : r.Fits) :
    (∀ r₁ : Rect, r₁.Fits → (Subtracted r₁ r (subtractRect r₁ r) ↔ SubtractOk r₁ r)) ∧
    ∀ rects : List Rect, (∀ f ∈ rects, f.Fits ∧ SubtractOk f r) →
      union (subtractRects rects r) = union rects \ r.points := by
  constructor
  · intro r₁ h1
    exact ⟨SubtractOk.of_subtracted h1 hr, fun h => h.subtracted h1 hr⟩
  · intro rects hrects
    ext p
    have hone : ∀ f ∈ rects, (∃ q ∈ subtractRect f r, p ∈ q.points) ↔ p ∈ f.points ∧ p ∉ r.points :=
      fun f hf => ((hrects f hf).2.subtracted (hrects f hf).1 hr).mem_iff p
    simp only [union, subtractRects, List.mem_flatMap, Set.mem_ofPred_eq, Set.mem_sdiff]
    constructor
    · rintro ⟨q, ⟨f, hf, hq⟩, hp⟩
      have hpf := (hone f hf).1 ⟨q, hq, hp⟩
      exact ⟨⟨f, hf, hpf.1⟩, hpf.2⟩
    · rintro ⟨⟨f, hf, hpf⟩, hpr⟩
      obtain ⟨q, hq, hp⟩ := (hone f hf).2 ⟨hpf, hpr⟩
      exact ⟨q, ⟨f, hf, hq⟩, hp⟩

/-- A rectangle with another one in its middle, across zero: four strips are left of it. -/
theorem subtractRect_right_iff_frame :
    (subtractRect ⟨-10, -10, 40, 40⟩ ⟨0, 0, 10, 10⟩).length = 4 ∧
      Subtracted ⟨-10, -10, 40, 40⟩ ⟨0, 0, 10, 10⟩ (subtractRect ⟨-10, -10, 40, 40⟩ ⟨0, 0, 10, 10⟩) ∧
      union (subtractRects [⟨-10, -10, 40, 40⟩] ⟨0, 0, 10, 10⟩) =
        union [⟨-10, -10, 40, 40⟩] \ (Rect.mk 0 0 10 10).points := by
  have hframe : (Rect.mk (-10) (-10) 40 40).Fits := by constructor <;> decide
  have hhole : (Rect.mk 0 0 10 10).Fits := by constructor <;> decide
  have hok : SubtractOk ⟨-10, -10, 40, 40⟩ ⟨0, 0, 10, 10⟩ :=
    fun _ => .inr ⟨by simp [Mistaken], by decide, by decide⟩
  obtain ⟨hone, hlist⟩ := subtractRect_right_iff ⟨0, 0, 10, 10⟩ hhole
  refine ⟨by decide, (hone _ hframe).2 hok, ?_⟩
  apply hlist
  simp only [List.mem_singleton, forall_eq]
  exact ⟨hframe, hok⟩

/-- **Wrong answers.**  Of two rectangles of one size, next to each other at the upper edge, the first is taken
for the second, and nothing is left of it.  Where the right edges lie on different sides of zero, a strip is
returned that is not in the rectangle. -/
theorem subtractRect_wrong :
    (subtractRect ⟨5, 0, 10, 10⟩ ⟨0, 0, 10, 10⟩ = [] ∧
      ((12, 0) : ℤ × ℤ) ∈ (Rect.mk 5 0 10 10).points \ (Rect.mk 0 0 10 10).points) ∧
    (subtractRect ⟨-20, 0, 15, 10⟩ ⟨-10, 0, 13, 10⟩ = [⟨-20, 0, 10, 10⟩, ⟨3, 0, 4294967288, 10⟩] ∧
      ((3, 0) : ℤ × ℤ) ∉ (Rect.mk (-20) 0 15 10).points) := by
  refine ⟨⟨by decide, ?_⟩, by decide, ?_⟩
  · simp [Rect.points]
  · simp [Rect.points]

end Btos.User.Gds
