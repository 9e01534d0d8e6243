import Btos.Kernel.Processes.Process

/-!
# Permissions

`kernel/perms.cpp`.  A process has a mask of 64 bits for the kernel and for every extension; a bit that is set
*denies* a permission.  Whoever has the kernel's permission `SuperPerm` has all of them.

* `shiftMask` — **the bits `HasPermission` looks at**: `1 << p` is computed as an `int`;
* `hasPermission_right_iff` — **the test is right exactly for them**, or if the process has `SuperPerm`.
-/

namespace Btos.Kernel.Processes

open Util Process

def superPerm : ℕ := 0

/-- **`1 << p`**, an `int` that becomes a `uint64_t`: the processor takes the count modulo 32, and the sign is
extended. -/
def shiftMask (p : ℕ) : BitVec 64 := ((1#32) <<< (p % 32)).signExtend 64

def Process.getPermissions (proc : Process) (extensionID : BitVec 16) : BitVec 64 :=
  (proc.permissions.find extensionID).getD 0#64

def testMask (perms : BitVec 64) (p : ℕ) : Bool := decide (shiftMask p &&& perms = 0#64)

/-- **`HasPermission`**. -/
def hasPermission (ext : BitVec 16) (p : ℕ) (proc : Process) : Bool :=
  (!(decide (ext = 0#16) && decide (p = superPerm)) && testMask (proc.getPermissions 0#16) superPerm) ||
    testMask (proc.getPermissions ext) p

/-- `Process::SetPermissions` as `PermissionManager::SetPermissions` calls it: bits are added. -/
def Process.addPermissions (proc : Process) (ext : BitVec 16) (pmask : BitVec 64) : Process :=
  { proc with permissions := proc.permissions.set ext (proc.getPermissions ext ||| pmask) }

/-- **`PermissionManager::SetPermissions`**; `known` says whether there is such an extension. -/
def ProcessManager.setPermissions (s : ProcessManager) (ext : BitVec 16) (pmask : BitVec 64) (pid : ℕ)
    (known : Bool) : Option ProcessManager :=
  if ext ≠ 0#16 ∧ !known then some s else s.call pid fun proc => proc.addPermissions ext pmask

/-! ### The bits of the mask -/

/-- **The masks of which the test of `p` reads the right bit.**  Up to 30, all of them. -/
def MaskOk (p : ℕ) (m : BitVec 64) : Prop :=
  if p < 31 then True
  -- the bit that is read is 32 places below
  else if p % 32 < 31 then m.getLsbD (p - 32) = m.getLsbD p
  -- the sign bit has been extended
  else m.getLsbD p = true ∨ ∀ i, 31 ≤ i → i < 64 → m.getLsbD i = false

/-- **The bits of `1 << p`**: one, and for the sign bit all that are above it. -/
theorem getLsbD_shiftMask (p i : ℕ) (hi : i < 64) :
    (shiftMask p).getLsbD i = decide (i = p % 32 ∨ (p % 32 = 31 ∧ 31 ≤ i)) := by
  simp only [shiftMask, BitVec.getLsbD_signExtend, BitVec.msb_eq_getLsbD_last,
    BitVec.getLsbD_shiftLeft, BitVec.getLsbD_one, hi]
  by_cases h : i < 32
  · rw [if_pos h]
    apply Bool.eq_iff_iff.mpr
    simp
    omega
  · rw [if_neg h]
    apply Bool.eq_iff_iff.mpr
    simp
    omega

section

variable (m : BitVec 64)
include m

theorem testMask_eq_false_iff (p : ℕ) :
    testMask m p = false ↔ ∃ i, i < 64 ∧ (i = p % 32 ∨ (p % 32 = 31 ∧ 31 ≤ i)) ∧ m.getLsbD i = true := by
  rw [testMask, decide_eq_false_iff_not, BitVec.eq_of_getLsbD_eq_iff]
  simp only [BitVec.getLsbD_and, BitVec.getLsbD_zero, not_forall, Bool.not_eq_false, Bool.and_eq_true]
  constructor
  · intro ⟨i, hi, hs, hm⟩
    rw [getLsbD_shiftMask p i hi, decide_eq_true_eq] at hs
    exact ⟨i, hi, hs, hm⟩
  · intro ⟨i, hi, hs, hm⟩
    refine ⟨i, hi, ?_, hm⟩
    rw [getLsbD_shiftMask p i hi, decide_eq_true_eq]
    exact hs

/-- **Up to 30**, and for the bits 32 places above them, the test looks at one bit. -/
theorem testMask_of_mod_lt (h : p % 32 < 31) :
    testMask m p = false ↔ m.getLsbD (p % 32) = true := by
  rw [testMask_eq_false_iff]
  constructor
  · intro ⟨i, _, hi, hm⟩
    have hip : i = p % 32 := by omega
    rwa [hip] at hm
  · intro hm
    exact ⟨p % 32, by omega, .inl rfl, hm⟩

/-- **For 31 and 63** it looks at the 33 highest bits. -/
theorem testMask_of_mod_eq (h : p % 32 = 31) :
    testMask m p = false ↔ ∃ i, 31 ≤ i ∧ i < 64 ∧ m.getLsbD i = true := by
  rw [testMask_eq_false_iff]
  constructor
  · intro ⟨i, hi, hp, hm⟩
    exact ⟨i, by omega, hi, hm⟩
  · intro ⟨i, hle, hi, hm⟩
    exact ⟨i, hi, .inr ⟨h, hle⟩, hm⟩

@[simp] theorem testMask_superPerm : testMask m superPerm = false ↔ m.getLsbD 0 = true :=
  testMask_of_mod_lt m (by decide)

/-- The test of `p` is the bit `p` exactly for the masks that are `MaskOk`. -/
theorem testMask_right_iff (hp : p < 64) :
    (testMask m p = false ↔ m.getLsbD p = true) ↔ MaskOk p m := by
  unfold MaskOk
  by_cases hlow : p < 31
  · have hmod : p % 32 = p := Nat.mod_eq_of_lt (by omega)
    have h := testMask_of_mod_lt m (p := p) (by omega)
    rw [hmod] at h
    simp [hlow, h]
  · rw [if_neg hlow]
    by_cases hmid : p % 32 < 31
    · have hmod : p % 32 = p - 32 := by omega
      rw [if_pos hmid, testMask_of_mod_lt m hmid, hmod, ← Bool.eq_iff_iff]
    · rw [if_neg hmid, testMask_of_mod_eq m (by omega)]
      constructor
      · intro h
        by_cases hm : m.getLsbD p = true
        · exact .inl hm
        · refine .inr fun i hle hi => ?_
          by_contra hne
          exact hm (h.mp ⟨i, hle, hi, by simpa using hne⟩)
      · rintro (hm | hnone)
        · exact ⟨fun _ => hm, fun _ => ⟨p, by omega, hp, hm⟩⟩
        · constructor
          · rintro ⟨i, hle, hi, hm⟩
            simp [hnone i hle hi] at hm
          · intro hm
            simp [hnone p (by omega) hp] at hm

end

/-! ### The permission -/

/-- **A permission is missing** if both masks say so. -/
theorem hasPermission_eq_false_iff (ext : BitVec 16) (p : ℕ) (proc : Process) :
    hasPermission ext p proc = false ↔
      testMask (proc.getPermissions ext) p = false ∧ (proc.getPermissions 0#16).getLsbD 0 = true := by
  rw [hasPermission, ← testMask_superPerm (proc.getPermissions 0#16)]
  by_cases hself : ext = 0#16 ∧ p = superPerm
  · obtain ⟨rfl, rfl⟩ := hself
    simp
  · have hne : (decide (ext = 0#16) && decide (p = superPerm)) = false := by
      simpa using hself
    rw [hne]
    cases testMask (proc.getPermissions 0#16) superPerm <;> simp

/-- Both bits are set: what a missing permission should be. -/
def Denied (proc : Process) (ext : BitVec 16) (p : ℕ) : Prop :=
  (proc.getPermissions ext).getLsbD p = true ∧ (proc.getPermissions 0#16).getLsbD 0 = true

/-- **The condition on a test**: the process has `SuperPerm`, or the mask is read right. -/
def TestOk (proc : Process) (ext : BitVec 16) (p : ℕ) : Prop :=
  (proc.getPermissions 0#16).getLsbD 0 = false ∨ MaskOk p (proc.getPermissions ext)

theorem hasPermission_right_iff (proc : Process) (ext : BitVec 16) (hp : p < 64) :
    (hasPermission ext p proc = false ↔ Denied proc ext p) ↔ TestOk proc ext p := by
  rw [hasPermission_eq_false_iff, Denied, TestOk, ← testMask_right_iff _ hp]
  cases (proc.getPermissions 0#16).getLsbD 0 <;> simp

/-- **Whoever has `SuperPerm` has every permission.** -/
theorem hasPermission_of_superPerm (h : hasPermission 0#16 superPerm proc = true)
    (ext : BitVec 16) (p : ℕ) : hasPermission ext p proc = true := by
  by_contra hne
  have hfalse : hasPermission ext p proc = false := by simpa using hne
  have hsuper := ((hasPermission_eq_false_iff ext p proc).mp hfalse).2
  have hmissing : hasPermission 0#16 superPerm proc = false :=
    (hasPermission_eq_false_iff 0#16 superPerm proc).mpr ⟨(testMask_superPerm _).mpr hsuper, hsuper⟩
  rw [h] at hmissing
  cases hmissing

/-! ### Adding bits -/

theorem getPermissions_addPermissions (proc : Process) (ext e : BitVec 16) (pmask : BitVec 64) :
    (proc.addPermissions ext pmask).getPermissions e =
      if ext = e then proc.getPermissions ext ||| pmask else proc.getPermissions e := by
  by_cases h : ext = e
  · subst h
    simp [getPermissions, addPermissions]
  · simp [getPermissions, addPermissions, Map.find_set, h]

def Grows (proc later : Process) : Prop :=
  ∀ ext i, (proc.getPermissions ext).getLsbD i = true → (later.getPermissions ext).getLsbD i = true

/-- **A permission that is missing stays missing** while the masks grow. -/
theorem Grows.missing (hg : Grows proc later)
    (h : hasPermission ext p proc = false) : hasPermission ext p later = false := by
  rw [hasPermission_eq_false_iff] at h ⊢
  refine ⟨?_, hg _ _ h.2⟩
  obtain ⟨i, hi, hp, hm⟩ := (testMask_eq_false_iff _ _).mp h.1
  exact (testMask_eq_false_iff _ _).mpr ⟨i, hi, hp, hg _ _ hm⟩

end Btos.Kernel.Processes
