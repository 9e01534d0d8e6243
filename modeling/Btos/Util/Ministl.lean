import Mathlib.Data.List.Induction
import Mathlib.Algebra.Group.Nat.Defs

/-!
# The kernel's `vector`

`include/util/ministl.hpp`.  A vector owns raw memory for `reserved` elements, of which the first
`dataSize` are alive; it copies, assigns and destroys its elements one by one, so what growing or
erasing does to the rest of the kernel is up to the element type.

* `Elem.Sound` — **the contract of an element type**: a property of the memory and of *all* elements
  that are alive, kept by each of the three element operations.

`malloc` is taken to succeed (it panics otherwise), and sizes are natural numbers.
-/

namespace Btos.Util.Ministl

open List Option

variable {σ T : Type*}

/-- The copy constructor, the assignment `dst = src` and the destructor of an element type. -/
structure Elem (σ T : Type*) where
  copy : T → σ → Option σ
  assign : T → T → σ → Option σ
  destroy : T → σ → Option σ

/-- Elements without constructors of their own: characters and pointers. -/
def Elem.plain : Elem Unit T := ⟨fun _ => some, fun _ _ => some, fun _ => some⟩

/-- A vector: its live elements, and the number of elements its memory has room for. -/
structure Vector (T : Type*) where
  items : List T
  reserved : ℕ

def Vector.empty : Vector T := ⟨[], 10⟩

/-- The elements lie inside the memory, and doubling the memory makes it larger. -/
def Vector.Fits (v : Vector T) : Prop := v.items.length ≤ v.reserved ∧ 0 < v.reserved

theorem Vector.empty_fits : (Vector.empty : Vector T).Fits := ⟨Nat.zero_le _, Nat.succ_pos 9⟩

section Operations

variable (E : Elem σ T)

/-- The loop that copies the elements into new memory. -/
def copyAll : List T → σ → Option σ
  | [], s => some s
  | x :: l, s => (E.copy x s).bind (copyAll l)

/-- The loop that destroys the elements in the old memory. -/
def destroyAll : List T → σ → Option σ
  | [], s => some s
  | x :: l, s => (E.destroy x s).bind (destroyAll l)

def reserve (newSize : ℕ) (v : Vector T) (s : σ) : Option (Vector T × σ) :=
  if newSize < v.reserved then some (v, s)
  else (copyAll E v.items s).bind fun s =>
    (destroyAll E v.items s).map fun s => ({ v with reserved := newSize }, s)

/-- `push_back`; a write behind the memory is undefined. -/
def pushBack (item : T) (v : Vector T) (s : σ) : Option (Vector T × σ) :=
  (if v.items.length = v.reserved then reserve E (v.reserved * 2) v s else some (v, s)).bind
    fun r => if r.1.items.length < r.1.reserved then
        (E.copy item r.2).map fun s => ({ r.1 with items := r.1.items ++ [item] }, s)
      else none

/-- The first loop of `erase`: `n` elements are moved down, from `src` to `dst` on. -/
def moveDown : ℕ → ℕ → ℕ → List T → σ → Option (List T × σ)
  | 0, _, _, data, s => some (data, s)
  | n + 1, dst, src, data, s =>
      data[dst]?.bind fun old => data[src]?.bind fun new =>
        (E.assign old new s).bind fun s => moveDown n (dst + 1) (src + 1) (data.set dst new) s

/-- The second loop of `erase`: the last `count` elements are destroyed. -/
def removeLast : ℕ → List T → σ → Option (List T × σ)
  | 0, data, s => some (data, s)
  | count + 1, data, s =>
      data.getLast?.bind fun x => (E.destroy x s).bind fun s => removeLast count data.dropLast s

def erase (start stop : ℕ) (v : Vector T) (s : σ) : Option (Vector T × σ) :=
  let stop := min stop v.items.length
  let start := min start stop
  (moveDown E (v.items.length - stop) start stop v.items s).bind fun r =>
    (removeLast E (stop - start) r.1 r.2).map fun r => ({ v with items := r.1 }, r.2)

/-- `n` times `push_back`. -/
def pushMany (item : T) : ℕ → Vector T → σ → Option (Vector T × σ)
  | 0, v, s => some (v, s)
  | n + 1, v, s => (pushBack E item v s).bind fun r => pushMany item n r.1 r.2

/-- `resize`; `item` is the value of `{}`. -/
def resize (item : T) (newSize : ℕ) (v : Vector T) (s : σ) : Option (Vector T × σ) :=
  (if v.items.length > newSize then erase E newSize v.items.length v s else some (v, s)).bind
    fun r => (reserve E newSize r.1 r.2).bind
      fun r => pushMany E item (newSize - r.1.items.length) r.1 r.2

def popBack (v : Vector T) (s : σ) : Option (Vector T × σ) :=
  erase E (v.items.length - 1) (v.items.length - 1 + 1) v s

end Operations

/-! ### The contract of an element type -/

/-- `Inv l s` is kept by the element operations, where `l` are the elements that are alive; `Src l x`
says that `x` may be copied. -/
structure Elem.Sound (E : Elem σ T) (Inv : List T → σ → Prop) (Src : List T → T → Prop) :
    Prop where
  perm : ∀ {l l' s}, Inv l s → l.Perm l' → Inv l' s
  mem : ∀ {l x}, x ∈ l → Src l x
  copy : ∀ {l x s}, Inv l s → Src l x → ∃ s', E.copy x s = some s' ∧ Inv (x :: l) s'
  assign : ∀ {d l x s}, Inv (d :: l) s → x ∈ d :: l → ∃ s', E.assign d x s = some s' ∧ Inv (x :: l) s'
  destroy : ∀ {x l s}, Inv (x :: l) s → ∃ s', E.destroy x s = some s' ∧ Inv l s'

theorem Elem.plain_sound : (Elem.plain : Elem Unit T).Sound (fun _ _ => True) fun _ _ => True where
  perm _ _ := trivial
  mem _ := trivial
  copy _ _ := ⟨(), rfl, trivial⟩
  assign _ _ := ⟨(), rfl, trivial⟩
  destroy _ := ⟨(), rfl, trivial⟩

section Specs

variable {E : Elem σ T} {Inv : List T → σ → Prop} {Src : List T → T → Prop}

variable {s : σ} {r : List T}

section

variable (hE : E.Sound Inv Src)
include hE

theorem copyAll_spec (l : List T) (hl : l ⊆ base) (h : Inv base s) :
    ∃ s', copyAll E l s = some s' ∧ Inv (l ++ base) s' := by
  induction l generalizing base s with
  | nil => exact ⟨s, rfl, h⟩
  | cons x l ih =>
    obtain ⟨s1, h1, hinv1⟩ := hE.copy h (hE.mem (hl mem_cons_self))
    obtain ⟨s2, h2, hinv2⟩ := ih
      (fun y hy => mem_cons_of_mem x (hl (mem_cons_of_mem x hy))) hinv1
    refine ⟨s2, ?_, hE.perm hinv2 perm_middle⟩
    rw [copyAll, h1]
    exact h2

theorem destroyAll_spec (l : List T) (h : Inv (l ++ base) s) :
    ∃ s', destroyAll E l s = some s' ∧ Inv base s' := by
  induction l generalizing s with
  | nil => exact ⟨s, rfl, h⟩
  | cons x l ih =>
    obtain ⟨s1, h1, hinv1⟩ := hE.destroy h
    obtain ⟨s2, h2, hinv2⟩ := ih hinv1
    refine ⟨s2, ?_, hinv2⟩
    rw [destroyAll, h1]
    exact h2

/-- **Growing** moves the elements to other memory and leaves everything else as it was. -/
theorem reserve_spec (n : ℕ) (v : Vector T) (h : Inv (v.items ++ r) s) :
    ∃ s', reserve E n v s = some (⟨v.items, max n v.reserved⟩, s') ∧ Inv (v.items ++ r) s' := by
  unfold reserve
  by_cases hn : n < v.reserved
  · rw [if_pos hn, Nat.max_eq_right (Nat.le_of_lt hn)]
    exact ⟨s, rfl, h⟩
  · obtain ⟨s1, h1, hinv1⟩ := copyAll_spec hE v.items (subset_append_left _ r) h
    obtain ⟨s2, h2, hinv2⟩ := destroyAll_spec hE v.items hinv1
    refine ⟨s2, ?_, hinv2⟩
    rw [if_neg hn, h1, Nat.max_eq_left (Nat.le_of_not_lt hn)]
    simp only [bind_some, h2, map_some]

/-- **`push_back`** appends a copy, inside the memory. -/
theorem pushBack_spec (hv : v.Fits) (h : Inv (v.items ++ r) s) (hx : Src (v.items ++ r) x) :
    ∃ v' s', pushBack E x v s = some (v', s') ∧ v'.items = v.items ++ [x] ∧ v'.Fits ∧
      v.reserved ≤ v'.reserved ∧ Inv (v.items ++ [x] ++ r) s' := by
  obtain ⟨hlen, hpos⟩ := hv
  -- the vector and the memory once there is room
  obtain ⟨m, s1, hgrow, hroom, hle, hinv1⟩ : ∃ m s1, (if v.items.length = v.reserved then
      reserve E (v.reserved * 2) v s else some (v, s)) = some (⟨v.items, m⟩, s1) ∧
      v.items.length < m ∧ v.reserved ≤ m ∧ Inv (v.items ++ r) s1 := by
    by_cases hfull : v.items.length = v.reserved
    · obtain ⟨s1, h1, hinv1⟩ := reserve_spec hE (v.reserved * 2) v h
      refine ⟨max (v.reserved * 2) v.reserved, s1, ?_, ?_, Nat.le_max_right _ _, hinv1⟩
      · rw [if_pos hfull, h1]
      · omega
    · exact ⟨v.reserved, s, if_neg hfull, by omega, Nat.le_refl _, h⟩
  obtain ⟨s2, h2, hinv2⟩ := hE.copy hinv1 hx
  refine ⟨⟨v.items ++ [x], m⟩, s2, ?_, rfl, ⟨?_, Nat.zero_lt_of_lt hroom⟩, hle, ?_⟩
  · rw [pushBack, hgrow, bind_some, if_pos hroom, h2]
    rfl
  · simp only [length_append, length_singleton]
    omega
  · refine hE.perm hinv2 ?_
    rw [append_assoc]
    exact perm_middle.symm

/-- The first loop of `erase`: behind the part `kept`, the elements `tail` have taken the place of
`gone ++ tail`, whose last elements stand there twice. -/
theorem moveDown_spec (tail : List T) :
    ∀ (kept gone : List T) (s : σ), gone ≠ [] → Inv (kept ++ gone ++ tail ++ r) s →
      ∃ s', moveDown E tail.length kept.length (kept.length + gone.length) (kept ++ gone ++ tail) s =
          some (kept ++ tail ++ (gone ++ tail).drop tail.length, s') ∧
        Inv (kept ++ tail ++ (gone ++ tail).drop tail.length ++ r) s' := by
  induction tail with
  | nil =>
    intro kept gone s _ h
    refine ⟨s, ?_, ?_⟩
    · simp [moveDown]
    · simpa using h
  | cons x tail ih =>
    intro kept gone s hgone h
    obtain ⟨d, gone, rfl⟩ := exists_cons_of_ne_nil hgone
    have hperm : (kept ++ d :: gone ++ x :: tail ++ r).Perm
        (d :: (kept ++ gone ++ x :: tail ++ r)) := by
      simp only [append_assoc, cons_append]
      exact perm_middle
    obtain ⟨s1, h1, hinv1⟩ := hE.assign (x := x) (hE.perm h hperm) (by simp)
    have hperm1 : (x :: (kept ++ gone ++ x :: tail ++ r)).Perm
        (kept ++ [x] ++ (gone ++ [x]) ++ tail ++ r) := by
      simp only [append_assoc, cons_append, nil_append]
      exact perm_middle.symm
    obtain ⟨s2, h2, hinv2⟩ := ih (kept ++ [x]) (gone ++ [x]) s1 (by simp) (hE.perm hinv1 hperm1)
    refine ⟨s2, ?_, ?_⟩
    · have hset : (kept ++ d :: gone ++ x :: tail).set kept.length x =
          kept ++ [x] ++ (gone ++ [x]) ++ tail := by
        simp
      have hdst : (kept ++ d :: gone ++ x :: tail)[kept.length]? = some d := by simp
      have hsrc : (kept ++ d :: gone ++ x :: tail)[kept.length + (d :: gone).length]? = some x := by
        rw [← length_append, getElem?_append_right (Nat.le_refl _), Nat.sub_self]
        rfl
      have hlen : kept.length + (d :: gone).length + 1 = (kept ++ [x]).length + (gone ++ [x]).length := by
        simp only [length_append, length_cons, length_nil]
        omega
      rw [length_cons, moveDown, hdst, hsrc, bind_some, bind_some, h1, bind_some, hset, hlen]
      have hone : kept.length + 1 = (kept ++ [x]).length := by simp
      rw [hone, h2]
      simp
    · simpa using hinv2

theorem removeLast_spec (gone : List T) : ∀ s : σ, Inv (kept ++ gone ++ r) s →
      ∃ s', removeLast E gone.length (kept ++ gone) s = some (kept, s') ∧ Inv (kept ++ r) s' := by
  induction gone using List.reverseRecOn with
  | nil =>
    intro s h
    refine ⟨s, ?_, ?_⟩
    · simp [removeLast]
    · simpa using h
  | append_singleton gone x ih =>
    intro s h
    have hperm : (kept ++ (gone ++ [x]) ++ r).Perm (x :: (kept ++ gone ++ r)) := by
      simp only [append_assoc, cons_append, nil_append]
      rw [← append_assoc]
      exact perm_middle.trans (by rw [append_assoc])
    obtain ⟨s1, h1, hinv1⟩ := hE.destroy (hE.perm h hperm)
    obtain ⟨s2, h2, hinv2⟩ := ih s1 hinv1
    refine ⟨s2, ?_, hinv2⟩
    rw [length_append, length_singleton, removeLast, ← append_assoc,
      getLast?_concat, bind_some, h1, dropLast_concat]
    exact h2

/-- **`erase`** takes the elements from `i` on up to `j` out. -/
theorem erase_spec (hv : v.Fits) (hlt : i < j)
    (hle : j ≤ v.items.length) (h : Inv (v.items ++ r) s) : ∃ s', erase E i j v s =
        some (⟨v.items.take i ++ v.items.drop j, v.reserved⟩, s') ∧
      Vector.Fits (T := T) ⟨v.items.take i ++ v.items.drop j, v.reserved⟩ ∧
      Inv (v.items.take i ++ v.items.drop j ++ r) s' := by
  obtain ⟨kept, hkept⟩ : ∃ kept, kept = v.items.take i := ⟨_, rfl⟩
  obtain ⟨gone, hgone⟩ : ∃ gone, gone = (v.items.take j).drop i := ⟨_, rfl⟩
  obtain ⟨tail, htail⟩ : ∃ tail, tail = v.items.drop j := ⟨_, rfl⟩
  have hitems : v.items = kept ++ gone ++ tail := by
    have htake : (v.items.take j).take i = kept := by
      rw [take_take, Nat.min_eq_left (Nat.le_of_lt hlt), hkept]
    rw [← htake, hgone, htail, take_append_drop, take_append_drop]
  have hkl : kept.length = i := by
    rw [hkept, length_take]
    omega
  have hgl : gone.length = j - i := by
    rw [hgone, length_drop, length_take]
    omega
  have htl : tail.length = v.items.length - j := by rw [htail, length_drop]
  have hne : gone ≠ [] := by
    intro h0
    rw [h0, length_nil] at hgl
    omega
  rw [hitems] at h
  obtain ⟨s1, h1, hinv1⟩ := moveDown_spec hE tail kept gone s hne h
  have hdrop : ((gone ++ tail).drop tail.length).length = j - i := by
    rw [length_drop, length_append]
    omega
  obtain ⟨s2, h2, hinv2⟩ := removeLast_spec hE ((gone ++ tail).drop tail.length) s1 hinv1
  rw [← hkept, ← htail]
  refine ⟨s2, ?_, ⟨?_, hv.2⟩, hinv2⟩
  · rw [hdrop, htl] at h2
    rw [htl, hkl, hgl, Nat.add_sub_cancel' (Nat.le_of_lt hlt), ← hitems] at h1
    simp only [erase, Nat.min_eq_left hle, Nat.min_eq_left (Nat.le_of_lt hlt), h1, bind_some, h2, map_some]
  · have := hv.1
    simp only [length_append] at this ⊢
    omega

end

end Specs

/-! ### Plain elements -/

/-- `n` times `push_back` of a plain element. -/
theorem pushMany_plain (x : T) (n : ℕ) : ∀ v : Vector T, v.Fits →
    ∃ v', pushMany Elem.plain x n v () = some (v', ()) ∧ v'.items = v.items ++ List.replicate n x ∧
      v'.Fits := by
  induction n with
  | zero =>
    intro v hv
    exact ⟨v, rfl, (append_nil _).symm, hv⟩
  | succ n ih =>
    intro v hv
    obtain ⟨v1, s1, h1, hitems, hfits, -, -⟩ :=
      pushBack_spec (r := []) Elem.plain_sound hv (x := x) (s := ()) trivial trivial
    obtain ⟨v2, h2, hitems2, hfits2⟩ := ih v1 hfits
    refine ⟨v2, ?_, ?_, hfits2⟩
    · rw [pushMany, h1]
      exact h2
    · rw [hitems2, hitems, append_assoc, replicate_succ]
      rfl

/-- **`resize`** of a vector of plain elements. -/
theorem resize_plain (x : T) (hn : 0 < n) (v : Vector T) (hv : v.Fits) :
    ∃ v', resize Elem.plain x n v () = some (v', ()) ∧ v'.items.length = n ∧ v'.Fits := by
  -- what is left after the erasure
  obtain ⟨l, hcut, hle, hfit⟩ : ∃ l, (if v.items.length > n then
      erase Elem.plain n v.items.length v () else some (v, ())) = some (⟨l, v.reserved⟩, ()) ∧
      l.length ≤ n ∧ l.length ≤ v.reserved := by
    by_cases hgt : v.items.length > n
    · obtain ⟨s', h, hfits, -⟩ := erase_spec (r := []) Elem.plain_sound hv hgt (Nat.le_refl _)
        (s := ()) trivial
      refine ⟨_, (if_pos hgt).trans h, ?_, hfits.1⟩
      simp only [drop_length, append_nil, length_take]
      omega
    · exact ⟨v.items, if_neg hgt, by omega, hv.1⟩
  obtain ⟨s', hres, -⟩ := reserve_spec (r := []) Elem.plain_sound n ⟨l, v.reserved⟩ trivial
  obtain ⟨v', hpush, hitems, hfits⟩ := pushMany_plain x (n - l.length) ⟨l, max n v.reserved⟩
    ⟨Nat.le_trans hle (Nat.le_max_left _ _), Nat.lt_of_lt_of_le hn (Nat.le_max_left _ _)⟩
  refine ⟨v', ?_, ?_, hfits⟩
  · rw [resize, hcut, bind_some, hres]
    exact hpush
  · rw [hitems, length_append, length_replicate]
    exact Nat.add_sub_cancel' hle

end Btos.Util.Ministl
