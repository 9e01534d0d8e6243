import Mathlib.Data.List.Basic
import Mathlib.Data.Int.Notation

/-!
# Symbols in a hash section

`hash_lookup` of `user/system/eloader/el_load_elf.cpp`, with `elf_hash` and the loader's own `strcmp`.  The tables are
those that the dynamic section of a module points to; how they are found in the file is not modelled.

* `strcmp_eq_zero_iff` — **the comparison** is 0 exactly for equal strings;
* `sysvHash`, `elfHash_toNat` — **the hash of the format**, in numbers, which is what `elf_hash` computes in 32 bits;
* `HashSection` — **a well-formed section**: every symbol is in the chain of its hash, the chains end, and no name is
  there twice; it says nothing of the loader;
* `hashLookup_spec` — **the walk along a chain ends**, at the symbol that the module defines.
-/

namespace Btos.User.Eloader

open List

/-- The characters of a string in front of its zero. -/
structure CString where
  chars : List (BitVec 8)
  nonzero : 0 ∉ chars

/-! ### Comparing strings -/

/-- What is behind the loop of `strcmp`; `back` is the difference of the characters before the two pointers. -/
def strcmpEnd (s1 s2 : List (BitVec 8)) (back : ℤ) : ℤ :=
  if s1.isEmpty ≠ s2.isEmpty then (s1.headD 0).toInt - (s2.headD 0).toInt else back

def strcmpLoop : ℤ → List (BitVec 8) → List (BitVec 8) → ℤ
  | _, a :: s1, b :: s2 =>
      -- both pointers are behind the characters, whether these are equal or not
      if a = b then strcmpLoop (a.toInt - b.toInt) s1 s2 else strcmpEnd s1 s2 (a.toInt - b.toInt)
  | back, s1, s2 => strcmpEnd s1 s2 back

def strcmp (s1 s2 : List (BitVec 8)) : ℤ := if s1.isEmpty && s2.isEmpty then 0 else strcmpLoop 0 s1 s2

theorem strcmpEnd_eq_zero (h1 : 0 ∉ s1) (h2 : 0 ∉ s2) (back : ℤ) :
    strcmpEnd s1 s2 back = 0 ↔ s1.isEmpty = s2.isEmpty ∧ back = 0 := by
  have hne : ∀ {a : BitVec 8} {l : List (BitVec 8)}, 0 ∉ a :: l → a.toInt ≠ 0 := fun h heq =>
    h (mem_cons.mpr (.inl (BitVec.toInt_inj.mp heq).symm))
  cases s1 with
  | nil =>
    cases s2 with
    | nil => simp [strcmpEnd]
    | cons b s2 => simp [strcmpEnd, hne h2]
  | cons a s1 =>
    cases s2 with
    | nil => simp [strcmpEnd, hne h1]
    | cons b s2 => simp [strcmpEnd]

theorem strcmpLoop_eq_zero (s1 s2 : List (BitVec 8)) (h1 : 0 ∉ s1) (h2 : 0 ∉ s2) :
    strcmpLoop 0 s1 s2 = 0 ↔ s1 = s2 := by
  induction s1 generalizing s2 with
  | nil => cases s2 <;> simp_all [strcmpLoop, strcmpEnd_eq_zero]
  | cons a s1 ih =>
    rw [mem_cons, not_or] at h1
    cases s2 with
    | nil => simp_all [strcmpLoop, strcmpEnd_eq_zero]
    | cons b s2 =>
      rw [mem_cons, not_or] at h2
      by_cases hab : a = b
      · rw [strcmpLoop, if_pos hab, hab, Int.sub_self, ih s2 h1.2 h2.2]
        simp
      · have hdiff : a.toInt - b.toInt ≠ 0 := fun h => hab (BitVec.toInt_inj.mp (Int.sub_eq_zero.mp h))
        rw [strcmpLoop, if_neg hab, strcmpEnd_eq_zero h1.2 h2.2]
        simp [hab, hdiff]

theorem strcmp_eq_zero_iff (s1 s2 : CString) : strcmp s1.chars s2.chars = 0 ↔ s1.chars = s2.chars := by
  rw [← strcmpLoop_eq_zero _ _ s1.nonzero s2.nonzero, strcmp]
  split
  · simp_all [strcmpLoop, strcmpEnd]
  · rfl

/-! ### The hash -/

/-- `elf_hash`, in 32 bits. -/
def elfHash (name : List (BitVec 8)) : BitVec 32 :=
  name.foldl (fun h c =>
    let h := (h <<< 4) + c.setWidth 32
    let g := h &&& 0xf0000000#32
    (if g ≠ 0 then h ^^^ (g >>> 24) else h) &&& ~~~g) 0

/-- **The hash of the format**, in numbers: characters are the digits of a number in base 16 that is kept below
`2 ^ 28`.  After each digit the four bits above, of 32, are added bit by bit to the second digit. -/
def sysvHash (name : List (BitVec 8)) : ℕ :=
  name.foldl (fun h c =>
    let n := (16 * h + c.toNat) % 0x100000000
    n % 0x10000000 ^^^ 16 * (n / 0x10000000)) 0

theorem getLsbD_top (i : ℕ) : (0xf0000000#32).getLsbD i = decide (28 ≤ i ∧ i < 32) := by
  rcases Nat.lt_or_ge i 32 with hi | hi
  · have h : ∀ j : Fin 32, (0xf0000000#32).getLsbD j = decide (28 ≤ j.val ∧ j.val < 32) := by decide
    exact h ⟨i, hi⟩
  · rw [BitVec.getLsbD_of_ge _ _ hi]
    simp
    omega

/-- **The upper bits**, as the code moves them. -/
theorem toNat_fold (h : BitVec 32) :
    ((if h &&& 0xf0000000#32 ≠ 0 then h ^^^ ((h &&& 0xf0000000#32) >>> 24) else h) &&&
        ~~~(h &&& 0xf0000000#32)).toNat =
      h.toNat % 0x10000000 ^^^ 16 * (h.toNat / 0x10000000) := by
  have hif : (if h &&& 0xf0000000#32 ≠ 0 then h ^^^ ((h &&& 0xf0000000#32) >>> 24) else h) =
      h ^^^ ((h &&& 0xf0000000#32) >>> 24) := by
    split
    · rfl
    · simp_all
  have hpow : 0x10000000 = 2 ^ 28 ∧ 16 = 2 ^ 4 := by decide
  rw [hif, hpow.1, hpow.2]
  apply Nat.eq_of_testBit_eq
  intro i
  rw [Nat.testBit_xor, Nat.testBit_mod_two_pow, Nat.testBit_two_pow_mul, Nat.testBit_div_two_pow]
  simp only [BitVec.testBit_toNat, BitVec.getLsbD_and, BitVec.getLsbD_xor, BitVec.getLsbD_not,
    BitVec.getLsbD_ushiftRight, getLsbD_top]
  have hdigit : 4 ≤ i → i - 4 + 28 = 24 + i := by omega
  have hhigh : 8 ≤ i → h.getLsbD (24 + i) = false := fun hi => BitVec.getLsbD_of_ge _ _ (by omega)
  have hwidth : 32 ≤ i → h.getLsbD i = false := BitVec.getLsbD_of_ge _ _
  grind

/-- **`elf_hash` computes the hash of the format.** -/
theorem elfHash_toNat (name : List (BitVec 8)) : (elfHash name).toNat = sysvHash name := by
  refine (foldl_hom BitVec.toNat ?_).symm
  intro h c
  have hsum : ((h <<< 4) + c.setWidth 32).toNat = (16 * h.toNat + c.toNat) % 0x100000000 := by
    simp [Nat.shiftLeft_eq]
    omega
  rw [toNat_fold, hsum]

/-! ### The section -/

/-- `Elf32_Sym`; its name is an offset in the table of strings. -/
structure Sym where
  name : ℕ
  value : ℕ
  size : ℕ
  info : ℕ
  other : ℕ
  shndx : ℕ
  deriving DecidableEq, Repr

/-- What the dynamic section of a module points to. -/
structure Module where
  hashtbl : ℕ → ℕ
  symtab : ℕ → Sym
  strtab : ℕ → CString

namespace Module

variable (m : Module)

def bucketCount : ℕ := m.hashtbl 0

def chainCount : ℕ := m.hashtbl 1

def bucketTable (i : ℕ) : ℕ := m.hashtbl (2 + i)

def chainTable (i : ℕ) : ℕ := m.hashtbl (2 + m.bucketCount + i)

def symname (i : ℕ) : CString := m.strtab (m.symtab i).name

/-- The loop, at most `fuel` turns.  An entry with `SHN_UNDEF`, whose other fields are not set, is `none`. -/
def lookupLoop (symbol : CString) : ℕ → ℕ → Option (Option Sym)
  | 0, _ => none
  | fuel + 1, i =>
      if i < m.chainCount ∧ i ≠ 0 then
        if strcmp symbol.chars (m.symname i).chars = 0 then
          some (if (m.symtab i).shndx ≠ 0 then some (m.symtab i) else none)
        else lookupLoop symbol fuel (m.chainTable i)
      else some none

def bucketIdx (symbol : CString) : ℕ := (elfHash symbol.chars).toNat % m.bucketCount

def hashLookup (symbol : CString) (fuel : ℕ) : Option (Option Sym) :=
  m.lookupLoop symbol fuel (m.bucketTable (m.bucketIdx symbol))

/-- The symbols from `i` on, up to the end of the chain. -/
inductive Chain : ℕ → List ℕ → Prop where
  | stop (h : ¬ (i < m.chainCount ∧ i ≠ 0)) : Chain i []
  | next (h : i < m.chainCount ∧ i ≠ 0) (rest : Chain (m.chainTable i) l) : Chain i (i :: l)

/-- **The module defines the symbol**, with this entry. -/
def Defines (symbol : CString) (e : Sym) : Prop :=
  ∃ i, (i < m.chainCount ∧ i ≠ 0) ∧ (m.symname i).chars = symbol.chars ∧ m.symtab i = e ∧ e.shndx ≠ 0

end Module

/-- A well-formed section, with the symbols of each bucket: a symbol is in the bucket of its hash. -/
structure HashSection extends Module where
  members : ℕ → List ℕ
  pos : 0 < toModule.bucketCount
  chains : ∀ b < toModule.bucketCount, toModule.Chain (toModule.bucketTable b) (members b)
  reached : ∀ i, i < toModule.chainCount ∧ i ≠ 0 →
    i ∈ members (sysvHash (toModule.symname i).chars % toModule.bucketCount)
  distinct : ∀ i j, i < toModule.chainCount ∧ i ≠ 0 → j < toModule.chainCount ∧ j ≠ 0 →
    (toModule.symname i).chars = (toModule.symname j).chars → i = j

/-! ### The walk -/

variable {m : Module} {symbol : CString}

theorem Module.Chain.range (h : m.Chain i l) : ∀ j ∈ l, j < m.chainCount ∧ j ≠ 0 := by
  induction h with
  | stop h => simp
  | next h rest ih => exact forall_mem_cons.mpr ⟨h, ih⟩

/-- **The loop goes along the chain**, up to the symbol. -/
theorem lookupLoop_chain (h : m.Chain i l) : ∀ fuel, l.length < fuel → m.lookupLoop symbol fuel i =
    some ((l.find? fun j => (m.symname j).chars = symbol.chars).bind fun j =>
      if (m.symtab j).shndx ≠ 0 then some (m.symtab j) else none) := by
  induction h with
  | stop h =>
    intro fuel hfuel
    obtain ⟨fuel, rfl⟩ := Nat.exists_eq_add_one_of_ne_zero (Nat.ne_of_gt hfuel)
    rw [Module.lookupLoop, if_neg h]
    rfl
  | @next i l h rest ih =>
    intro fuel hfuel
    obtain ⟨fuel, rfl⟩ := Nat.exists_eq_add_one_of_ne_zero (Nat.ne_of_gt (Nat.zero_lt_of_lt hfuel))
    have hcmp := strcmp_eq_zero_iff symbol (m.symname i)
    rw [Module.lookupLoop, if_pos h]
    by_cases heq : symbol.chars = (m.symname i).chars
    · rw [if_pos (hcmp.mpr heq), find?_cons, decide_eq_true heq.symm]
      rfl
    · rw [if_neg (mt hcmp.mp heq), ih fuel (Nat.lt_of_succ_lt_succ hfuel), find?_cons, decide_eq_false (Ne.symm heq)]

/-- **`hash_lookup` ends, with the entry that the module defines for the symbol, or with an undefined one.** -/
theorem hashLookup_spec (m : HashSection) (symbol : CString) :
    ∃ r n, (∀ fuel, n < fuel → m.hashLookup symbol fuel = some r) ∧ ∀ e, r = some e ↔ m.Defines symbol e := by
  have hchain := m.chains _ (Nat.mod_lt (elfHash symbol.chars).toNat m.pos)
  refine ⟨_, _, lookupLoop_chain hchain, fun e => ?_⟩
  constructor
  · intro h
    obtain ⟨j, hfind, h⟩ := Option.bind_eq_some_iff.mp h
    have hname : (m.symname j).chars = symbol.chars := by simpa using find?_some hfind
    obtain ⟨hdef, rfl⟩ : (m.symtab j).shndx ≠ 0 ∧ m.symtab j = e := by simpa using h
    exact ⟨j, hchain.range j (mem_of_find?_eq_some hfind), hname, rfl, hdef⟩
  · rintro ⟨i, hi, hname, rfl, hdef⟩
    have hmem : i ∈ m.members (m.bucketIdx symbol) := by
      have hreached := m.reached i hi
      rwa [hname, ← elfHash_toNat] at hreached
    cases hfind : (m.members (m.bucketIdx symbol)).find? fun j => (m.symname j).chars = symbol.chars with
    | none => exact absurd hname (by simpa using find?_eq_none.mp hfind i hmem)
    | some j =>
      have hj : (m.symname j).chars = symbol.chars := by simpa using find?_some hfind
      obtain rfl := m.distinct i j hi (hchain.range j (mem_of_find?_eq_some hfind)) (hname.trans hj.symm)
      exact (congrArg (Option.bind · _) hfind).trans (if_pos hdef)

/-- The symbols `a`, `b` and `c`, of which `b` is not defined, in two buckets. -/
def threeModule : Module where
  hashtbl i := [2, 4, 2, 1, 0, 3, 0, 0].getD i 0
  symtab i := ⟨i, 0x1000 * i, 16, 0, 0, if i = 2 then 0 else 1⟩
  strtab i := if i = 1 then ⟨[0x61], by decide⟩ else if i = 2 then ⟨[0x62], by decide⟩
    else if i = 3 then ⟨[0x63], by decide⟩ else ⟨[], by decide⟩

def threeSymbols : HashSection where
  toModule := threeModule
  members b := if b = 0 then [2] else [1, 3]
  pos := by decide
  chains b hb := by
    have hb : b = 0 ∨ b = 1 := Nat.le_one_iff_eq_zero_or_eq_one.mp (Nat.le_of_lt_succ hb)
    obtain rfl | rfl := hb
    · exact .next (by decide) (.stop (by decide))
    · exact .next (by decide) (.next (by decide) (.stop (by decide)))
  reached := by
    rintro i ⟨hi, h0⟩
    revert i
    decide
  distinct := by
    rintro i j ⟨hi, -⟩ ⟨hj, -⟩
    have hall : ∀ i < 4, ∀ j < 4, (threeModule.symname i).chars = (threeModule.symname j).chars → i = j := by
      decide
    exact hall i hi j hj

/-- `c` is found behind `a`, in the second bucket, and for `b` there is no entry. -/
theorem hashLookup_spec_threeSymbols :
    threeSymbols.hashLookup ⟨[0x63], by decide⟩ 3 = some (some (threeSymbols.symtab 3)) ∧
    threeSymbols.hashLookup ⟨[0x62], by decide⟩ 3 = some none ∧
    ∃ r n, (∀ fuel, n < fuel → threeSymbols.hashLookup ⟨[0x63], by decide⟩ fuel = some r) ∧
      ∀ e, r = some e ↔ threeSymbols.Defines ⟨[0x63], by decide⟩ e :=
  ⟨by decide, by decide, hashLookup_spec threeSymbols ⟨[0x63], by decide⟩⟩

end Btos.User.Eloader
