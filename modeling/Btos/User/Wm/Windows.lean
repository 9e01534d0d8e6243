import Btos.User.Gds.Regions
import Mathlib.Data.List.Sort

/-!
# Drawing the windows

`user/system/wm/windows.cpp`: `DrawWindows` paints a part of the screen anew, the lowest window first, with no
window grabbed and no menu open.  What lies below the topmost window that contains the part is left out.

* `Stack.drawWindows` — **the code**;  `Stack.painted` — **everything painted**;
* `drawWindows_right_iff` — the two show **the same exactly if** every rectangle that the equality mistakes for
  the part is one that the windows from there on cover.
-/

namespace Btos.User.Wm

open Gds List

abbrev Screen := ℤ × ℤ → ℕ

instance (r : Rect) (p : ℤ × ℤ) : Decidable (p ∈ r.points) := inferInstanceAs (Decidable (_ ∧ _ ∧ _ ∧ _))

/-- A window, what it shows when it is the active one and when it is not, and that its edges are `int32_t`s. -/
structure Window where
  id : ℕ
  zOrder : ℕ
  visible : Bool
  bounds : Rect
  shows : Bool → Screen
  w_nonneg : 0 ≤ bounds.w
  h_nonneg : 0 ≤ bounds.h
  left : -2 ^ 31 ≤ bounds.x
  top : -2 ^ 31 ≤ bounds.y
  right : bounds.x + bounds.w < 2 ^ 31
  bottom : bounds.y + bounds.h < 2 ^ 31

/-- `Draw`, of a part of the screen. -/
def Window.draw (w : Window) (active : Bool) (r : Rect) (screen : Screen) : Screen := fun p =>
  if p ∈ r.points ∧ p ∈ w.bounds.points then w.shows active p else screen p

def box (r : Rect) (colour : ℕ) (screen : Screen) : Screen := fun p =>
  if p ∈ r.points then colour else screen p

/-- `windows`, a map by their ids. -/
structure Stack where
  windows : List Window
  ids : (windows.map Window.id).Nodup
  zOrders : (windows.map Window.zOrder).Nodup

def Stack.sortWindows (s : Stack) : List Window := s.windows.insertionSort fun a b => a.zOrder ≤ b.zOrder

/-- A turn of the loop: whether it is `drawing`, and the screen. -/
def drawTurn (active lastWin : Option ℕ) (r : Rect) (st : Bool × Screen) (w : Window) : Bool × Screen :=
  if !w.visible then st
  else
    let drawing := st.1 || lastWin == some w.id
    (drawing, if drawing && overlaps r w.bounds then w.draw (active == some w.id) r st.2 else st.2)

/-- **`DrawWindows`** of a rectangle, with `above` zero. -/
def Stack.drawWindows (s : Stack) (backgroundColour : ℕ) (active : Option ℕ) (r : Rect) (screen : Screen) :
    Screen :=
  let wins := s.sortWindows
  let lastWin := wins.reverse.find? fun w => w.visible && Gds.contains w.bounds r
  let screen := if lastWin.isNone then box r backgroundColour screen else screen
  (wins.foldl (drawTurn active (lastWin.map Window.id) r) (lastWin.isNone, screen)).2

/-- The background and all visible windows. -/
def Stack.painted (s : Stack) (backgroundColour : ℕ) (active : Option ℕ) (r : Rect) (screen : Screen) :
    Screen :=
  s.sortWindows.foldl (fun screen w => if w.visible then w.draw (active == some w.id) r screen else screen)
    (box r backgroundColour screen)

def Covered (p : ℤ × ℤ) (wins : List Window) : Prop := ∃ w ∈ wins, w.visible = true ∧ p ∈ w.bounds.points

def DrawOk (s : Stack) (r : Rect) : Prop :=
  ∀ below w above, s.sortWindows = below ++ w :: above → w.visible = true → Mistaken r w.bounds →
    (∀ v ∈ above, (v.visible && Gds.contains v.bounds r) = false) → ∀ p ∈ r.points, Covered p (w :: above)

/-! ### One pixel -/

section

variable {r : Rect} {p : ℤ × ℤ} {w : Window} {wins : List Window} {active lastWin : Option ℕ} {screen : Screen}

/-- The colour of a pixel after the windows were painted over it. -/
def shown (active : Option ℕ) (p : ℤ × ℤ) (wins : List Window) (colour : ℕ) : ℕ :=
  wins.foldl (fun c w => if w.visible ∧ p ∈ w.bounds.points then w.shows (active == some w.id) p else c) colour

theorem Window.fits (w : Window) (h : p ∈ w.bounds.points) : w.bounds.Fits := by
  obtain ⟨hl, hr, ht, hb⟩ := h
  exact ⟨by omega, by omega, w.left, w.top, w.right, w.bottom⟩

theorem Window.overlaps (w : Window) (hr : r.Fits) (hp : p ∈ r.points) (h : p ∈ w.bounds.points) :
    overlaps r w.bounds = true :=
  (overlaps_iff hr (w.fits h)).2 ((overlap_iff_nonempty hr (w.fits h)).2 ⟨p, hp, h⟩)

/-- A window that contains the rectangle covers it, or the two were mistaken for the same. -/
theorem Window.contains_cases (w : Window) (hr : r.Fits) (h : Gds.contains w.bounds r = true) :
    Mistaken r w.bounds ∨ r.points ⊆ w.bounds.points := by
  have hfits : w.bounds.Fits := by
    have hleft := w.left
    have htop := w.top
    have hw := w.w_nonneg
    have hh := w.h_nonneg
    have hright := w.right
    have hbottom := w.bottom
    refine ⟨?_, ?_, hleft, htop, hright, hbottom⟩ <;>
    · have hw0 := hr.w_pos
      have hh0 := hr.h_pos
      simp only [Gds.contains, Rect.eq, inRect, i32_add_i32] at h
      rw [i32_of_range (by omega) hright, i32_of_range (by omega) hbottom] at h
      grind
  rw [contains_iff hr hfits, eq_iff] at h
  rw [subset_iff hr]
  rcases h with (h | ⟨h, -⟩) | h
  · exact .inl h
  · exact .inr (h ▸ Within.refl _)
  · exact .inr h.within

theorem shown_covered (h : Covered p wins) (a b : ℕ) : shown active p wins a = shown active p wins b := by
  induction wins generalizing a b with
  | nil => simp [Covered] at h
  | cons v rest ih =>
    by_cases hv : v.visible ∧ p ∈ v.bounds.points
    · simp [shown, hv]
    · obtain ⟨w, hw, hcov⟩ := h
      rcases mem_cons.1 hw with rfl | hw
      · exact absurd hcov hv
      · simpa [shown, hv] using ih ⟨w, hw, hcov⟩ a b

theorem shown_bare (h : ¬Covered p wins) (a : ℕ) : shown active p wins a = a := by
  induction wins with
  | nil => rfl
  | cons v rest ih =>
    simp only [Covered, mem_cons, exists_eq_or_imp, not_or] at h
    simpa [shown, h.1] using ih h.2

theorem painted_apply (s : Stack) (colour : ℕ) (hp : p ∈ r.points) :
    s.painted colour active r screen p = shown active p s.sortWindows colour := by
  have hfold : ∀ (wins : List Window) (scr : Screen), wins.foldl (fun scr w => if w.visible then
      w.draw (active == some w.id) r scr else scr) scr p = shown active p wins (scr p) := by
    intro wins
    induction wins with
    | nil => exact fun _ => rfl
    | cons w rest ih =>
      intro scr
      rw [foldl_cons, ih]
      by_cases hv : w.visible = true <;> simp [shown, Window.draw, hv, hp]
  rw [Stack.painted, hfold, box, if_pos hp]

/-- Once the loop is drawing, every visible window is painted. -/
theorem foldl_drawTurn_true (hr : r.Fits) (hp : p ∈ r.points) :
    (wins.foldl (drawTurn active lastWin r) (true, screen)).2 p = shown active p wins (screen p) := by
  induction wins generalizing screen with
  | nil => rfl
  | cons w rest ih =>
    have hover := w.overlaps hr hp
    by_cases hv : w.visible = true
    · have hturn : (drawTurn active lastWin r (true, screen) w) =
          (true, if overlaps r w.bounds then w.draw (active == some w.id) r screen else screen) := by
        simp [drawTurn, hv]
      rw [foldl_cons, hturn, ih]
      by_cases hpw : p ∈ w.bounds.points
      · simp [shown, Window.draw, hv, hp, hpw, hover]
      · by_cases ho : Gds.overlaps r w.bounds = true <;> simp [shown, Window.draw, hv, hpw, ho]
    · rw [foldl_cons, show drawTurn active lastWin r (true, screen) w = (true, screen) by simp [drawTurn, hv], ih]
      simp [shown, hv]

/-- Below `lastWin` nothing is painted. -/
theorem foldl_drawTurn_false (h : ∀ v ∈ wins, lastWin ≠ some v.id) :
    wins.foldl (drawTurn active lastWin r) (false, screen) = (false, screen) := by
  induction wins with
  | nil => rfl
  | cons v rest ih =>
    have hturn : drawTurn active lastWin r (false, screen) v = (false, screen) := by
      simp [drawTurn, h v mem_cons_self]
    rw [foldl_cons, hturn]
    exact ih fun u hu => h u (mem_cons_of_mem v hu)

theorem foldl_drawTurn_last (hr : r.Fits) (hp : p ∈ r.points) (hv : w.visible = true)
    (hids : ((below ++ w :: above).map Window.id).Nodup) :
    ((below ++ w :: above).foldl (drawTurn active (some w.id) r) (false, screen)).2 p =
      shown active p (w :: above) (screen p) := by
  have hbelow : ∀ v ∈ below, some w.id ≠ some v.id := by
    intro v hv heq
    rw [map_append, nodup_append] at hids
    exact hids.2.2 _ (mem_map_of_mem hv) _ mem_cons_self (Option.some.inj heq).symm
  have hturn : drawTurn active (some w.id) r (false, screen) w = drawTurn active (some w.id) r (true, screen) w := by
    simp [drawTurn, hv]
  rw [foldl_append, foldl_drawTurn_false hbelow, foldl_cons, hturn, ← foldl_cons, foldl_drawTurn_true hr hp]

/-- From the topmost window that contains the rectangle on, every visible window is painted. -/
theorem drawWindows_apply (s : Stack) (colour : ℕ) (hr : r.Fits) (hp : p ∈ r.points)
    (hwins : s.sortWindows = below ++ w :: above) (hv : w.visible = true) (hc : Gds.contains w.bounds r = true)
    (habove : ∀ v ∈ above, (v.visible && Gds.contains v.bounds r) = false) :
    s.drawWindows colour active r screen p = shown active p (w :: above) (screen p) := by
  have hlast : (s.sortWindows.reverse.find? fun w => w.visible && Gds.contains w.bounds r) = some w := by
    refine find?_eq_some_iff_append.2 ⟨by simp [hv, hc], above.reverse, below.reverse, by simp [hwins], ?_⟩
    simpa only [mem_reverse, Bool.not_eq_true'] using habove
  have hids : (s.sortWindows.map Window.id).Nodup := ((perm_insertionSort _ _).map _).nodup_iff.2 s.ids
  rw [hwins] at hids
  simp only [Stack.drawWindows, hlast, Option.isNone_some, Option.map_some, Bool.false_eq_true, if_false]
  rw [hwins, foldl_drawTurn_last hr hp hv hids]

theorem painted_split (s : Stack) (colour : ℕ) (hp : p ∈ r.points) (hwins : s.sortWindows = below ++ w :: above) :
    s.painted colour active r screen p = shown active p (w :: above) (shown active p below colour) := by
  rw [painted_apply s colour hp, hwins, shown, shown, shown, foldl_append]

end

/-- **When the windows that are skipped are not missed.** -/
theorem drawWindows_right_iff (s : Stack) (backgroundColour : ℕ) (active : Option ℕ) (r : Rect) (hr : r.Fits) :
    (∀ screen, ∀ p ∈ r.points, s.drawWindows backgroundColour active r screen p =
      s.painted backgroundColour active r screen p) ↔ DrawOk s r := by
  constructor
  · intro h below w above hwins hv hmis habove p hp
    have hc : Gds.contains w.bounds r = true := by simp [Gds.contains, eq_iff.2 (.inl hmis)]
    by_contra hbare
    -- a screen that showed another colour there shows it still
    have hpixel := h (fun _ => shown active p below backgroundColour + 1) p hp
    rw [drawWindows_apply s _ hr hp hwins hv hc habove, painted_split s _ hp hwins, shown_bare hbare,
      shown_bare hbare] at hpixel
    omega
  · intro h screen p hp
    cases hlast : s.sortWindows.reverse.find? fun w => w.visible && Gds.contains w.bounds r with
    | none =>
      simp only [Stack.drawWindows, hlast, Option.isNone_none, if_true]
      rw [foldl_drawTurn_true hr hp, painted_apply s _ hp, box, if_pos hp]
    | some w =>
      obtain ⟨hw, as, bs, hsplit, has⟩ := find?_eq_some_iff_append.1 hlast
      obtain ⟨hv, hc⟩ := Bool.and_eq_true_iff.1 hw
      have hwins : s.sortWindows = bs.reverse ++ w :: as.reverse := by simpa using congrArg reverse hsplit
      have habove : ∀ v ∈ as.reverse, (v.visible && Gds.contains v.bounds r) = false := by
        simpa only [mem_reverse, Bool.not_eq_true'] using has
      rw [drawWindows_apply s _ hr hp hwins hv hc habove, painted_split s _ hp hwins]
      refine shown_covered ?_ _ _
      rcases w.contains_cases hr hc with hmis | hsub
      · exact h _ w _ hwins hv hmis habove p hp
      · exact ⟨w, mem_cons_self, hv, hsub hp⟩

/-- A window at the origin. -/
def oneWindow : Stack where
  windows := [⟨1, 0, true, ⟨0, 0, 10, 10⟩, fun _ _ => 3, by decide, by decide, by decide, by decide, by decide,
    by decide⟩]
  ids := by decide
  zOrders := by decide

/-- A part of the screen inside the window. -/
theorem drawWindows_right_iff_inner : DrawOk oneWindow ⟨2, 2, 3, 3⟩ ∧ ∀ screen, ∀ p ∈ (Rect.mk 2 2 3 3).points,
    oneWindow.drawWindows 7 none ⟨2, 2, 3, 3⟩ screen p = oneWindow.painted 7 none ⟨2, 2, 3, 3⟩ screen p := by
  have hok : DrawOk oneWindow ⟨2, 2, 3, 3⟩ := by
    intro below w above hwins _ hmis
    have hw : w ∈ oneWindow.sortWindows := hwins ▸ by simp
    obtain rfl := mem_singleton.1 hw
    simp [Mistaken] at hmis
  exact ⟨hok, (drawWindows_right_iff oneWindow 7 none ⟨2, 2, 3, 3⟩ (by constructor <;> decide)).2 hok⟩

/-- **Left as it was.**  A pixel to the right of the window is not painted with the background. -/
theorem drawWindows_wrong : oneWindow.drawWindows 7 none ⟨5, 0, 10, 10⟩ (fun _ => 1) (12, 0) = 1 ∧
    oneWindow.painted 7 none ⟨5, 0, 10, 10⟩ (fun _ => 1) (12, 0) = 7 := by
  decide +kernel

end Btos.User.Wm
