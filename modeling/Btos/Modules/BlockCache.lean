import Btos.Lib.Table
import Btos.Lib.Transition
import Btos.Lib.Word
import Mathlib.Algebra.Order.Ring.Nat
import Mathlib.Data.List.Nodup

/-!
# The block cache

`modules/cache/cache.cpp`: a vector of blocks with a usage count each.  A block that is used is counted up, and
from the largest count on the others are counted down instead; a full cache loses the least used block.

* `Cache` — **a cache between two calls**: distinct ids, no more than `maxBlocks` entries and no larger counts;
* `Cache.lookup` — **what a cache is for**: the block that is found under an id;
* `cache_right_iff` — **runs of calls** to a cache as it is constructed, whose number of blocks may come out as 0 or as
  too many, since a product of two sizes has 32 bits.

The numbers of hits and misses are only printed and are left out.
-/

namespace Btos.Modules.BlockCache

open List Option
open Lib.Transition Lib.Word

structure CacheEntry (Block : Type*) where
  id : ℕ
  buf : Block
  usage : ℕ
  deriving DecidableEq, Repr

variable {Block : Type*}

/-! ### The loops -/

/-- The index of the last entry with the smallest count, from entry `i` on. -/
def pruneScan : List (CacheEntry Block) → (i min idx : ℕ) → ℕ
  | [], _, _, idx => idx
  | e :: es, i, min, idx =>
      if e.usage ≤ min then pruneScan es (i + 1) e.usage i else pruneScan es (i + 1) min idx

def prune (maxBlocks : ℕ) (entries : List (CacheEntry Block)) : List (CacheEntry Block) :=
  let idx := pruneScan entries 0 maxBlocks maxBlocks
  if idx ≠ maxBlocks then entries.eraseIdx idx else entries

/-- `while(entries.size() >= maxBlocks) Prune()`, with a bound on the number of turns. -/
def pruneLoop (maxBlocks : ℕ) : ℕ → List (CacheEntry Block) → Option (List (CacheEntry Block))
  | 0, _ => none
  | n + 1, entries =>
      if entries.length ≥ maxBlocks then pruneLoop maxBlocks n (prune maxBlocks entries) else some entries

def CacheEntry.lower (e : CacheEntry Block) : CacheEntry Block := { e with usage := e.usage - 1 }

/-- The entry between the two lists is used. -/
def use (maxBlocks : ℕ) (front : List (CacheEntry Block)) (e : CacheEntry Block)
    (back : List (CacheEntry Block)) : List (CacheEntry Block) :=
  if e.usage < maxBlocks then front ++ { e with usage := e.usage + 1 } :: back
  else front.map CacheEntry.lower ++ e :: back.map CacheEntry.lower

/-- `Cache::Store`. -/
def storeEntries (maxBlocks id : ℕ) (buf : Block) (entries : List (CacheEntry Block)) :
    Option (List (CacheEntry Block)) :=
  match entries.dropWhile fun e => e.id ≠ id with
  | e :: back => some (use maxBlocks (entries.takeWhile fun e => e.id ≠ id) { e with buf := buf } back)
  | [] => (pruneLoop maxBlocks (entries.length + 1) entries).map fun entries => entries ++ [⟨id, buf, 1⟩]

/-- `Cache::Retrieve`: the entries, and the block that is copied. -/
def retrieveEntries (maxBlocks id : ℕ) (entries : List (CacheEntry Block)) :
    List (CacheEntry Block) × Option Block :=
  match entries.dropWhile fun e => e.id ≠ id with
  | e :: back => (use maxBlocks (entries.takeWhile fun e => e.id ≠ id) e back, some e.buf)
  | [] => (entries, none)

/-- `Cache::Drop`: the entry behind one that is erased moves to its place and is not looked at. -/
def dropEntries (id : ℕ) : List (CacheEntry Block) → List (CacheEntry Block)
  | [] => []
  | [e] => if e.id = id then [] else [e]
  | e :: f :: es => if e.id = id then f :: dropEntries id es else e :: dropEntries id (f :: es)

/-! ### What the loops keep -/

/-- The ids are distinct, and there are not too many entries or too large counts. -/
structure Good (maxBlocks : ℕ) (entries : List (CacheEntry Block)) : Prop where
  length_le : entries.length ≤ maxBlocks
  distinct : (entries.map CacheEntry.id).Nodup
  usage_le : ∀ e ∈ entries, e.usage ≤ maxBlocks

def find (entries : List (CacheEntry Block)) (id : ℕ) : Option Block :=
  (entries.find? fun e => e.id = id).map CacheEntry.buf

variable {maxBlocks : ℕ} {entries : List (CacheEntry Block)}

theorem Good.of_sublist (h : Good maxBlocks entries) (hsub : sub.Sublist entries) : Good maxBlocks sub where
  length_le := hsub.length_le.trans h.length_le
  distinct := h.distinct.sublist (hsub.map _)
  usage_le e he := h.usage_le e (hsub.subset he)

/-- With distinct ids, **the entry with an id is the one that is found**. -/
theorem find_eq_some_iff (h : (entries.map CacheEntry.id).Nodup) (id : ℕ) (x : Block) :
    find entries id = some x ↔ ∃ e ∈ entries, e.id = id ∧ e.buf = x := by
  rw [find, map_eq_some_iff]
  constructor
  · rintro ⟨e, he, hx⟩
    exact ⟨e, mem_of_find?_eq_some he, by simpa using find?_some he, hx⟩
  · rintro ⟨e, he, hid, hx⟩
    refine ⟨e, ?_, hx⟩
    induction entries with
    | nil => cases he
    | cons f es ih =>
      rw [map_cons, nodup_cons] at h
      by_cases hf : f.id = id
      · rcases mem_cons.mp he with rfl | he
        · simp [hid]
        · exact absurd (mem_map.mpr ⟨e, he, hid.trans hf.symm⟩) h.1
      · rcases mem_cons.mp he with rfl | he
        · exact absurd hid hf
        · rw [find?_cons_of_neg (by simpa using hf)]
          exact ih h.2 he

/-- **Fewer entries** find nothing new. -/
theorem find_of_sublist (h : (entries.map CacheEntry.id).Nodup)
    (hsub : sub.Sublist entries) {id : ℕ} (hx : find sub id = some x) : find entries id = some x := by
  obtain ⟨e, he, hid, hbuf⟩ := (find_eq_some_iff (h.sublist (hsub.map _)) id x).mp hx
  exact (find_eq_some_iff h id x).mpr ⟨e, hsub.subset he, hid, hbuf⟩

theorem find_append (front back : List (CacheEntry Block)) (id : ℕ) :
    find (front ++ back) id = (find front id).or (find back id) := by
  rw [find, find?_append, map_or]
  rfl

theorem find_cons (e : CacheEntry Block) (es : List (CacheEntry Block)) (id : ℕ) :
    find (e :: es) id = if e.id = id then some e.buf else find es id := by
  by_cases h : e.id = id <;> simp [find, h]

theorem find_lower (entries : List (CacheEntry Block)) (id : ℕ) :
    find (entries.map CacheEntry.lower) id = find entries id := by
  induction entries with
  | nil => rfl
  | cons e es ih =>
    rw [map_cons, find_cons, find_cons, ih]
    rfl

theorem find_use (maxBlocks : ℕ) (front : List (CacheEntry Block)) (e : CacheEntry Block)
    (back : List (CacheEntry Block)) (id : ℕ) :
    find (use maxBlocks front e back) id = find (front ++ e :: back) id := by
  simp only [use]
  split
  · rw [find_append, find_append, find_cons, find_cons]
  · rw [find_append, find_append, find_cons, find_cons, find_lower, find_lower]

/-- **One entry is replaced** by another one with its id. -/
theorem Good.replace {front back : List (CacheEntry Block)} (h : Good maxBlocks (front ++ e :: back)) (hid : e'.id = e.id)
    (husage : e'.usage ≤ maxBlocks) : Good maxBlocks (front ++ e' :: back) := by
  refine ⟨by simpa using h.length_le, by simpa [hid] using h.distinct, ?_⟩
  intro f hf
  rcases mem_append.mp hf with hf | hf
  · exact h.usage_le f (by simp [hf])
  · rcases mem_cons.mp hf with rfl | hf
    · exact husage
    · exact h.usage_le f (by simp [hf])

theorem good_use {front back : List (CacheEntry Block)}
    (h : Good maxBlocks (front ++ e :: back)) : Good maxBlocks (use maxBlocks front e back) := by
  simp only [use]
  split
  · rename_i hlt
    exact h.replace rfl hlt
  · have hlower : (CacheEntry.id ∘ CacheEntry.lower : CacheEntry Block → ℕ) = CacheEntry.id := rfl
    refine ⟨by simpa using h.length_le, by simpa [hlower] using h.distinct, ?_⟩
    have hcount : ∀ es : List (CacheEntry Block), (∀ f ∈ es, f.usage ≤ maxBlocks) →
        ∀ f ∈ es.map CacheEntry.lower, f.usage ≤ maxBlocks := by
      intro es hes f hf
      obtain ⟨g, hg, rfl⟩ := mem_map.mp hf
      exact (Nat.sub_le _ _).trans (hes g hg)
    intro f hf
    rcases mem_append.mp hf with hf | hf
    · exact hcount front (fun g hg => h.usage_le g (by simp [hg])) f hf
    · rcases mem_cons.mp hf with rfl | hf
      · exact h.usage_le f (by simp)
      · exact hcount back (fun g hg => h.usage_le g (by simp [hg])) f hf

theorem dropWhile_cases (entries : List (CacheEntry Block)) (id : ℕ) :
    (entries.dropWhile (fun e => e.id ≠ id) = [] ∧ ∀ e ∈ entries, e.id ≠ id) ∨
      ∃ front e back, entries.dropWhile (fun e => e.id ≠ id) = e :: back ∧
        entries.takeWhile (fun e => e.id ≠ id) = front ∧ e.id = id ∧ entries = front ++ e :: back ∧
        find front id = none := by
  induction entries with
  | nil => simp
  | cons f es ih =>
    by_cases hf : f.id = id
    · exact .inr ⟨[], f, es, by simp [hf], by simp [hf], hf, rfl, rfl⟩
    · rcases ih with ⟨hnil, hall⟩ | ⟨front, e, back, hdrop, htake, hid, hsplit, hfront⟩
      · refine .inl ⟨by simpa [hf] using hnil, ?_⟩
        intro e he
        rcases mem_cons.mp he with rfl | he
        · exact hf
        · exact hall e he
      · refine .inr ⟨f :: front, e, back, by simpa [hf] using hdrop, by simpa [hf] using htake, hid, ?_, ?_⟩
        · rw [hsplit, cons_append]
        · rw [find_cons, if_neg hf, hfront]

/-! ### Pruning -/

theorem pruneScan_range (es : List (CacheEntry Block)) (i min idx : ℕ) :
    pruneScan es i min idx = idx ∨ i ≤ pruneScan es i min idx ∧ pruneScan es i min idx < i + es.length := by
  induction es generalizing i min idx with
  | nil => exact .inl rfl
  | cons e es ih =>
    rw [pruneScan, length_cons]
    split
    · rcases ih (i + 1) e.usage i with h | h
      · omega
      · omega
    · rcases ih (i + 1) min idx with h | h
      · exact .inl h
      · omega

/-- **A full cache loses exactly one entry.** -/
theorem prune_full (hpos : 0 < maxBlocks) (hlen : entries.length = maxBlocks)
    (husage : ∀ e ∈ entries, e.usage ≤ maxBlocks) :
    (prune maxBlocks entries).Sublist entries ∧ (prune maxBlocks entries).length + 1 = maxBlocks := by
  have hidx : pruneScan entries 0 maxBlocks maxBlocks < maxBlocks := by
    cases entries with
    | nil =>
      rw [length_nil] at hlen
      omega
    | cons e es =>
      rw [length_cons] at hlen
      rw [pruneScan, if_pos (husage e mem_cons_self)]
      rcases pruneScan_range es (0 + 1) e.usage 0 with h | h
      · rw [h]
        exact hpos
      · omega
  rw [prune, if_pos hidx.ne]
  refine ⟨eraseIdx_sublist _ _, ?_⟩
  rw [length_eraseIdx_of_lt (by omega)]
  omega

/-- **The loop returns**, with room for one more entry. -/
theorem pruneLoop_good (hpos : 0 < maxBlocks) (h : Good maxBlocks entries) :
    ∃ es, pruneLoop maxBlocks (entries.length + 1) entries = some es ∧ es.Sublist entries ∧
      es.length < maxBlocks := by
  by_cases hfull : entries.length ≥ maxBlocks
  · have hlen : entries.length = maxBlocks := Nat.le_antisymm h.length_le hfull
    obtain ⟨hsub, hless⟩ := prune_full hpos hlen h.usage_le
    obtain ⟨n, hn⟩ : ∃ n, entries.length = n + 1 := ⟨entries.length - 1, by omega⟩
    refine ⟨prune maxBlocks entries, ?_, hsub, by omega⟩
    rw [hn, pruneLoop, if_pos hfull, pruneLoop, if_neg (by omega)]
  · exact ⟨entries, by rw [pruneLoop, if_neg hfull], List.Sublist.refl _, by omega⟩

/-! ### The calls -/

/-- `Store` returns, and **finds what is stored and nothing else that is new**. -/
theorem storeEntries_spec (hpos : 0 < maxBlocks) (h : Good maxBlocks entries) (id : ℕ) (buf : Block) :
    ∃ es, storeEntries maxBlocks id buf entries = some es ∧ Good maxBlocks es ∧ find es id = some buf ∧
      ∀ j x, j ≠ id → find es j = some x → find entries j = some x := by
  rcases dropWhile_cases entries id with ⟨hdrop, hall⟩ | ⟨front, e, back, hdrop, htake, hid, hsplit, hfront⟩
  · -- a new entry, behind what is left
    obtain ⟨es, hloop, hsub, hlt⟩ := pruneLoop_good hpos h
    have hgood := h.of_sublist hsub
    have hnone : find es id = none := by
      rw [find, map_eq_none_iff, find?_eq_none]
      intro e he
      simpa using hall e (hsub.subset he)
    refine ⟨es ++ [⟨id, buf, 1⟩], by simp only [storeEntries, hdrop, hloop, map_some], ?_, ?_, ?_⟩
    · refine ⟨by rw [length_append]; exact hlt, ?_, ?_⟩
      · rw [map_append, nodup_append']
        refine ⟨hgood.distinct, by simp, ?_⟩
        intro j hj hj'
        obtain ⟨e, he, rfl⟩ := mem_map.mp hj
        simp only [map_cons, map_nil, mem_singleton] at hj'
        exact hall e (hsub.subset he) hj'
      · intro e he
        rcases mem_append.mp he with he | he
        · exact hgood.usage_le e he
        · rw [mem_singleton] at he
          subst he
          exact hpos
    · rw [find_append, hnone, find_cons, if_pos rfl, none_or]
    · intro j x hj hx
      rw [find_append, find_cons, if_neg (Ne.symm hj)] at hx
      apply find_of_sublist h.distinct hsub
      simpa [find] using hx
  · -- the entry that is there
    have hgood : Good maxBlocks (front ++ { e with buf := buf } :: back) := by
      rw [hsplit] at h
      exact h.replace rfl (h.usage_le e (by simp))
    refine ⟨_, by simp only [storeEntries, hdrop, htake], good_use hgood, ?_, ?_⟩
    · rw [find_use, find_append, hfront, find_cons, if_pos hid, none_or]
    · intro j x hj hx
      have hne : e.id ≠ j := fun he => hj (he.symm.trans hid)
      rw [find_use, find_append, find_cons, if_neg hne] at hx
      rw [hsplit, find_append, find_cons, if_neg hne]
      exact hx

theorem retrieveEntries_spec (h : Good maxBlocks entries) (id : ℕ) :
    Good maxBlocks (retrieveEntries maxBlocks id entries).1 ∧
      (retrieveEntries maxBlocks id entries).2 = find entries id ∧
      ∀ j, find (retrieveEntries maxBlocks id entries).1 j = find entries j := by
  rcases dropWhile_cases entries id with ⟨hdrop, hall⟩ | ⟨front, e, back, hdrop, htake, hid, hsplit, hfront⟩
  · simp only [retrieveEntries, hdrop, implies_true, and_true]
    refine ⟨h, ?_⟩
    symm
    rw [find, map_eq_none_iff, find?_eq_none]
    intro e he
    simpa using hall e he
  · simp only [retrieveEntries, hdrop, htake]
    refine ⟨good_use (hsplit ▸ h), ?_, ?_⟩
    · rw [hsplit, find_append, hfront, find_cons, if_pos hid, none_or]
    · intro j
      rw [find_use, ← hsplit]

/-- With distinct ids **`Drop` misses nothing**. -/
theorem dropEntries_eq_filter (entries : List (CacheEntry Block)) (id : ℕ)
    (h : (entries.map CacheEntry.id).Nodup) : dropEntries id entries = entries.filter fun e => e.id ≠ id := by
  fun_induction dropEntries id entries with
  | case1 => rfl
  | case2 e he | case3 e he => simp [he]
  | case4 e f es he ih =>
    simp only [map_cons, nodup_cons, mem_cons, not_or] at h
    have hf : f.id ≠ id := fun hf => h.1.1 (he.trans hf.symm)
    rw [ih h.2.2]
    simp [he, hf]
  | case5 e f es he ih =>
    rw [ih (nodup_cons.mp h).2]
    simp [he]

theorem dropEntries_spec (h : Good maxBlocks entries) (id : ℕ) : Good maxBlocks (dropEntries id entries) ∧
      ∀ j, find (dropEntries id entries) j = if j = id then none else find entries j := by
  rw [dropEntries_eq_filter entries id h.distinct]
  refine ⟨h.of_sublist filter_sublist, ?_⟩
  intro j
  rw [find, Btos.Lib.Table.find?_filter_ne]
  by_cases hj : j = id <;> simp [hj, find]

/-! ### Caches -/

structure Cache (Block : Type*) where
  maxBlocks : ℕ
  entries : List (CacheEntry Block)
  pos : 0 < maxBlocks
  good : Good maxBlocks entries

def maxCacheSize : ℕ := 4 * 1024 * 1024

def blocksFor (blockSize maxBlocks : ℕ) : ℕ :=
  if mul32 blockSize maxBlocks > maxCacheSize then maxCacheSize / blockSize else maxBlocks

namespace Cache

def create (blockSize maxBlocks : ℕ) (h : 0 < blocksFor blockSize maxBlocks) : Cache Block where
  maxBlocks := blocksFor blockSize maxBlocks
  entries := []
  pos := h
  good := ⟨Nat.zero_le _, nodup_nil, by simp⟩

theorem isSome_storeEntries (c : Cache Block) (id : ℕ) (buf : Block) :
    (storeEntries c.maxBlocks id buf c.entries).isSome = true := by
  obtain ⟨es, hes, -⟩ := storeEntries_spec c.pos c.good id buf
  rw [hes, isSome_some]

theorem good_storeEntries (c : Cache Block) (id : ℕ) (buf : Block) :
    Good c.maxBlocks ((storeEntries c.maxBlocks id buf c.entries).get (c.isSome_storeEntries id buf)) := by
  obtain ⟨es, hes, hgood, -⟩ := storeEntries_spec c.pos c.good id buf
  simpa only [hes, get_some] using hgood

/-- **`Store`**. -/
def store (c : Cache Block) (id : ℕ) (buf : Block) : Cache Block where
  maxBlocks := c.maxBlocks
  entries := (storeEntries c.maxBlocks id buf c.entries).get (c.isSome_storeEntries id buf)
  pos := c.pos
  good := c.good_storeEntries id buf

/-- **`Retrieve`**: the cache, and the block if it is found. -/
def retrieve (c : Cache Block) (id : ℕ) : Cache Block × Option Block :=
  (⟨c.maxBlocks, (retrieveEntries c.maxBlocks id c.entries).1, c.pos, (retrieveEntries_spec c.good id).1⟩,
    (retrieveEntries c.maxBlocks id c.entries).2)

/-- **`Drop`**. -/
def drop (c : Cache Block) (id : ℕ) : Cache Block where
  maxBlocks := c.maxBlocks
  entries := dropEntries id c.entries
  pos := c.pos
  good := (dropEntries_spec c.good id).1

def lookup (c : Cache Block) (id : ℕ) : Option Block := find c.entries id

@[simp] theorem lookup_store_self (c : Cache Block) (id : ℕ) (buf : Block) :
    (c.store id buf).lookup id = some buf := by
  obtain ⟨es, hes, -, hself, -⟩ := storeEntries_spec c.pos c.good id buf
  simpa only [lookup, store, hes, get_some] using hself

theorem lookup_store_of_ne {c : Cache Block} {id j : ℕ} {buf x : Block} (hj : j ≠ id)
    (h : (c.store id buf).lookup j = some x) : c.lookup j = some x := by
  obtain ⟨es, hes, -, -, hother⟩ := storeEntries_spec c.pos c.good id buf
  simp only [lookup, store, hes, get_some] at h
  exact hother j x hj h

@[simp] theorem retrieve_snd (c : Cache Block) (id : ℕ) : (c.retrieve id).2 = c.lookup id :=
  (retrieveEntries_spec c.good id).2.1

@[simp] theorem lookup_retrieve (c : Cache Block) (id j : ℕ) : (c.retrieve id).1.lookup j = c.lookup j :=
  (retrieveEntries_spec c.good id).2.2 j

theorem lookup_drop (c : Cache Block) (id j : ℕ) : (c.drop id).lookup j = if j = id then none else c.lookup j :=
  (dropEntries_spec c.good id).2 j

end Cache

/-! ### Runs of calls -/

inductive Request (Block : Type*) where
  | store (id : ℕ) (buf : Block)
  | retrieve (id : ℕ)
  | drop (id : ℕ)

/-- The entries, and the blocks that were stored and neither dropped nor evicted since. -/
structure Record (Block : Type*) where
  entries : List (CacheEntry Block)
  held : ℕ → Option Block

/-- One call, which may not return.  What `Store` evicts is no longer among the entries. -/
def serve (maxBlocks : ℕ) (s : Record Block) : Request Block → Option (Record Block)
  | .store id buf => (storeEntries maxBlocks id buf s.entries).map fun es =>
      ⟨es, fun j => if j = id then some buf else if j ∈ es.map CacheEntry.id then s.held j else none⟩
  | .retrieve id => some { s with entries := (retrieveEntries maxBlocks id s.entries).1 }
  | .drop id => some ⟨dropEntries id s.entries, fun j => if j = id then none else s.held j⟩

/-- With 0 blocks, **`Prune` is called for ever**. -/
theorem pruneLoop_zero (n : ℕ) (entries : List (CacheEntry Block)) : pruneLoop 0 n entries = none := by
  induction n generalizing entries with
  | zero => rfl
  | succ n ih => rw [pruneLoop, if_pos (Nat.zero_le _), ih]

/-- **Different ids fill the cache.** -/
theorem exec_stores (buf : Block) (n : ℕ) (hn : n ≤ maxBlocks) : ∃ s : Record Block,
    exec (serve maxBlocks) ⟨[], fun _ => none⟩ ((range n).map fun id => .store id buf) = some s ∧
      s.entries.length = n ∧ ∀ e ∈ s.entries, e.id < n := by
  induction n with
  | zero => exact ⟨_, rfl, rfl, by simp⟩
  | succ n ih =>
    obtain ⟨s, hs, hlen, hids⟩ := ih (Nat.le_of_succ_le hn)
    have hstore : storeEntries maxBlocks n buf s.entries = some (s.entries ++ [⟨n, buf, 1⟩]) := by
      rcases dropWhile_cases s.entries n with ⟨hdrop, -⟩ | ⟨front, e, back, -, -, hid, hsplit, -⟩
      · simp only [storeEntries, hdrop, pruneLoop, if_neg (show ¬s.entries.length ≥ maxBlocks by omega), map_some]
      · exact absurd hid (hids e (by simp [hsplit])).ne
    rw [range_succ, map_append, exec_append, hs]
    simp only [bind_some, map_cons, map_nil, exec, serve, hstore, map_some]
    refine ⟨_, rfl, by simp [hlen], ?_⟩
    intro e he
    rcases mem_append.mp he with he | he
    · exact Nat.lt_succ_of_lt (hids e he)
    · rw [mem_singleton.mp he]
      exact Nat.lt_succ_self n

def Faithful (maxBlocks : ℕ) (s : Record Block) : Prop :=
  Good maxBlocks s.entries ∧ ∀ id, find s.entries id = s.held id

theorem Faithful.next (hpos : 0 < maxBlocks) (h : Faithful maxBlocks s) (r : Request Block) :
    ∃ t, serve maxBlocks s r = some t ∧ Faithful maxBlocks t := by
  obtain ⟨hgood, hheld⟩ := h
  cases r with
  | store id buf =>
    obtain ⟨es, hes, hgood', hself, hother⟩ := storeEntries_spec hpos hgood id buf
    rw [serve, hes]
    refine ⟨_, rfl, hgood', ?_⟩
    intro j
    show find es j = if j = id then some buf else if j ∈ es.map CacheEntry.id then s.held j else none
    by_cases hj : j = id
    · rw [if_pos hj, hj, hself]
    · cases hx : find es j with
      | none =>
        have hgone : j ∉ es.map CacheEntry.id := by simpa [find] using hx
        rw [if_neg hj, if_neg hgone]
      | some x =>
        obtain ⟨e, he, hid, -⟩ := (find_eq_some_iff hgood'.distinct j x).mp hx
        rw [if_neg hj, if_pos (mem_map.mpr ⟨e, he, hid⟩), ← hheld j, hother j x hj hx]
  | retrieve id =>
    obtain ⟨hgood', -, hfind⟩ := retrieveEntries_spec hgood id
    exact ⟨_, rfl, hgood', fun j => (hfind j).trans (hheld j)⟩
  | drop id =>
    obtain ⟨hgood', hfind⟩ := dropEntries_spec hgood id
    refine ⟨_, rfl, hgood', ?_⟩
    intro j
    rw [hfind j, hheld j]

/-- **What is demanded of a run of calls** to `Cache(blockSize, maxBlocks)`: it ends, there is room for the blocks, and
`Retrieve` finds what is held. -/
def RunRight (blockSize maxBlocks : ℕ) (calls : List (Request Block)) : Prop :=
  ∃ s, exec (serve (blocksFor blockSize maxBlocks)) ⟨[], fun _ => none⟩ calls = some s ∧
    blockSize * s.entries.length ≤ maxCacheSize ∧ (s.entries.map CacheEntry.id).Nodup ∧
    (∀ e ∈ s.entries, e.usage ≤ blocksFor blockSize maxBlocks) ∧
    ∀ id, (retrieveEntries (blocksFor blockSize maxBlocks) id s.entries).2 = s.held id

/-- **Every run is right exactly if** the cache has at least one block and there is room for all of its blocks. -/
theorem cache_right_iff [Inhabited Block] (blockSize maxBlocks : ℕ) :
    (∀ calls : List (Request Block), RunRight blockSize maxBlocks calls) ↔
      0 < blocksFor blockSize maxBlocks ∧ blockSize * blocksFor blockSize maxBlocks ≤ maxCacheSize := by
  constructor
  · intro h
    constructor
    · rw [Nat.pos_iff_ne_zero]
      intro hzero
      obtain ⟨s, hs, -⟩ := h [.store 0 default]
      simp [hzero, exec, serve, storeEntries, pruneLoop_zero] at hs
    · obtain ⟨s, hs, hlen, -⟩ := exec_stores (default : Block) _ (Nat.le_refl (blocksFor blockSize maxBlocks))
      obtain ⟨t, ht, hroom, -⟩ := h _
      rw [hs, Option.some.injEq] at ht
      rwa [← ht, hlen] at hroom
  · rintro ⟨hpos, hroom⟩ calls
    obtain ⟨s, hs, hgood, hheld⟩ := exec_total (Faithful _) (fun _ r hs => Faithful.next hpos hs r) calls
      (s := ⟨[], fun _ => none⟩) ⟨⟨Nat.zero_le _, nodup_nil, by simp⟩, fun _ => rfl⟩
    refine ⟨s, hs, ?_, hgood.distinct, hgood.usage_le, ?_⟩
    · exact (Nat.mul_le_mul_left _ hgood.length_le).trans hroom
    · intro id
      rw [(retrieveEntries_spec hgood id).2.1, hheld id]

/-- **No block and too many.**  A block that is larger than all caches leaves room for none, and a product of `2 ^ 32`
bytes is taken for none. -/
theorem cache_wrong : ¬RunRight (2 ^ 23) 1 [.store 0 ()] ∧ blocksFor (2 ^ 16) (2 ^ 16) = 2 ^ 16 := by
  refine ⟨?_, by decide⟩
  rintro ⟨s, hs, -⟩
  cases hs

end Btos.Modules.BlockCache
