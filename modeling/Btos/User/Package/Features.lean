import Mathlib.Data.Int.Notation
import Mathlib.Data.List.Basic
import Mathlib.Tactic.Common

/-!
# Features of other packages

`user/cmds/package/packagefile.cpp`: before a package is installed, `CheckFeatureConflicts` is to find the features that
belong to another package.  It looks each feature up, and then compares the package in its own record, where `Parse`
has put −1.

* `checkFeatureConflicts`, `importInfo`, `install` — **the code**.  The registry has the ids of packages by their names,
  and a list of records of features, of which a lookup returns the first; two packages can have records of one feature;
* `OneOwner`, `NoConflict` — **what is demanded**, of a registry and of a package that is to be installed;
* `CallOk` — **the condition on a call**, on the packages and features that are registered;
* `runRight_iff` — in every sequence of calls the check **finds exactly the conflicts**, and no feature has two owners,
  **exactly if** each call meets the condition.

Versions, paths, hooks and the extraction of files are behind one flag of a call, and file types and associations
are left out.
-/

namespace Btos.User.Package

open List

structure FeatureInfo where
  name : List Char
  package : ℤ

/-- The registry: the packages by their names, and the records of features. -/
structure Registry where
  packages : List Char → Option ℤ
  features : List FeatureInfo
  /-- The name in the record that `GetPackageById` returns. -/
  packageName : ℤ → List Char
  /-- The `id` in the record of an absent name. -/
  absent : ℤ
  absent_le : absent ≤ 0
  id_pos : ∀ n k, packages n = some k → 0 < k

def Registry.getPackageByName (r : Registry) (name : List Char) : ℤ := (r.packages name).getD r.absent

def Registry.getFeatures (r : Registry) (pkgid : ℤ) : List (List Char) :=
  (r.features.filter (·.package = pkgid)).map FeatureInfo.name

/-- A package as it was parsed. -/
structure Parsed where
  name : List Char
  featureNames : List (List Char)

/-- `features`, as `Parse` fills it. -/
def Parsed.features (p : Parsed) : List FeatureInfo := p.featureNames.map fun n => ⟨n, -1⟩

def alreadyInstalled (feature package : List Char) : List Char :=
  "Feature \"".toList ++ feature ++ "\" is already installed as part of another package (\"".toList ++
    package ++ "\").".toList

/-- A turn of the loop; the record of the registered feature is not used. -/
def checkFeature (r : Registry) (curPkg : ℤ) (status : Bool × List (List Char)) (f : FeatureInfo) :
    Bool × List (List Char) :=
  if f.package ≠ 0 ∧ f.package ≠ curPkg then
    (false, status.2 ++ [alreadyInstalled f.name (r.packageName f.package)])
  else status

/-- **`CheckFeatureConflicts`**, with its messages. -/
def checkFeatureConflicts (r : Registry) (p : Parsed) : Bool × List (List Char) :=
  p.features.foldl (checkFeature r (r.getPackageByName p.name)) (true, [])

/-- The loop over the features of the installed package: of each name the first record is deleted. -/
def deleteFeatures (names : List (List Char)) (features : List FeatureInfo) : List FeatureInfo :=
  names.foldl (fun fs n => fs.eraseP (·.name = n)) features

/-- **`ImportInfo`**, with the `id` that the registry gives to the package. -/
def importInfo (r : Registry) (p : Parsed) (id : { id : ℤ // 0 < id }) : Registry where
  packages n := if n = p.name then some id.1 else r.packages n
  features :=
    let curPkg := r.getPackageByName p.name
    (if 0 < curPkg then deleteFeatures (r.getFeatures curPkg) r.features else r.features) ++
      p.featureNames.map fun n => ⟨n, id.1⟩
  packageName k := if k = id.1 then p.name else r.packageName k
  absent := r.absent
  absent_le := r.absent_le
  id_pos n k h := by
    split at h
    · exact Option.some.inj h ▸ id.2
    · exact r.id_pos n k h

/-- `Install`; `others` says whether the hooks, the other checks and the extraction succeed. -/
def install (r : Registry) (p : Parsed) (id : { id : ℤ // 0 < id }) (others : Bool) : Option Registry :=
  if others && (checkFeatureConflicts r p).1 then some (importInfo r p id) else none

structure Call where
  package : Parsed
  id : { id : ℤ // 0 < id }
  others : Bool

/-- The registry after a call, which a call that fails leaves as it is. -/
def Call.run (r : Registry) (c : Call) : Registry := (install r c.package c.id c.others).getD r

/-! ### What is demanded -/

/-- No feature has records of two packages. -/
def OneOwner (r : Registry) : Prop := ∀ f ∈ r.features, ∀ g ∈ r.features, f.name = g.name → f.package = g.package

/-- Every feature is new or belongs to the package of the same name. -/
def NoConflict (r : Registry) (p : Parsed) : Prop :=
  ∀ n ∈ p.featureNames, ∀ f ∈ r.features, f.name = n → r.packages p.name = some f.package

/-- **The run is right**: before each call and at the end no feature has two owners, and the check finds exactly the
conflicts. -/
def RunRight : Registry → List Call → Prop
  | r, [] => OneOwner r
  | r, c :: cs => OneOwner r ∧ ((checkFeatureConflicts r c.package).1 = true ↔ NoConflict r c.package) ∧
      RunRight (c.run r) cs

/-- The package has no features; it is new, an absent name has −1, and nobody has one of its features; or it is not so
and another package has one. -/
def CallOk (r : Registry) (p : Parsed) : Prop :=
  p.featureNames = [] ∨
    if r.packages p.name = none ∧ r.absent = -1 then ∀ n ∈ p.featureNames, ∀ f ∈ r.features, f.name ≠ n
    else ∃ n ∈ p.featureNames, ∃ f ∈ r.features, f.name = n ∧ r.packages p.name ≠ some f.package

def RunOk : Registry → List Call → Prop
  | _, [] => True
  | r, c :: cs => CallOk r c.package ∧ RunOk (c.run r) cs

/-! ### The check -/

variable {r : Registry} {p : Parsed}

theorem checkFeature_foldl (r : Registry) (curPkg : ℤ) (names : List (List Char)) :
    ∀ status, ((names.map fun n => ⟨n, -1⟩).foldl (checkFeature r curPkg) status).1 = true ↔
      status.1 = true ∧ (names = [] ∨ curPkg = -1) := by
  induction names with
  | nil => simp
  | cons n names ih =>
    intro status
    rw [map_cons, foldl_cons, ih]
    by_cases h : curPkg = -1
    · simp [checkFeature, h]
    · simp [checkFeature, h, Ne.symm h]

theorem getPackageByName_iff : r.getPackageByName p.name = -1 ↔ r.packages p.name = none ∧ r.absent = -1 := by
  rw [Registry.getPackageByName]
  cases hp : r.packages p.name with
  | none => simp
  | some k =>
    have hpos := r.id_pos _ k hp
    simp only [Option.getD_some, reduceCtorEq, false_and, iff_false]
    omega

/-- **What it lets pass**, conflict or not. -/
theorem checkFeatureConflicts_iff (r : Registry) (p : Parsed) : (checkFeatureConflicts r p).1 = true ↔
    p.featureNames = [] ∨ r.packages p.name = none ∧ r.absent = -1 := by
  rw [checkFeatureConflicts, Parsed.features, checkFeature_foldl, and_iff_right rfl, getPackageByName_iff]

theorem check_right_iff (r : Registry) (p : Parsed) :
    ((checkFeatureConflicts r p).1 = true ↔ NoConflict r p) ↔ CallOk r p := by
  rw [checkFeatureConflicts_iff, CallOk]
  by_cases hnil : p.featureNames = []
  · simp [hnil, NoConflict]
  · simp only [hnil, false_or]
    split
    · rename_i hnew
      simp [hnew, NoConflict]
    · rename_i hold
      simp [hold, NoConflict]

/-! ### Installations -/

theorem deleteFeatures_sublist (names : List (List Char)) (fs : List FeatureInfo) : deleteFeatures names fs <+ fs := by
  induction names generalizing fs with
  | nil => exact .refl fs
  | cons n names ih => exact (ih _).trans eraseP_sublist

/-- **An installation without a conflict** keeps the owners. -/
theorem OneOwner.importInfo (h : OneOwner r) (hnone : ∀ n ∈ p.featureNames, ∀ f ∈ r.features, f.name ≠ n)
    (id : { id : ℤ // 0 < id }) : OneOwner (importInfo r p id) := by
  have hold : ∀ f ∈ (Package.importInfo r p id).features, f ∈ r.features ∨ f.name ∈ p.featureNames ∧ f.package = id := by
    intro f hf
    rcases mem_append.1 hf with hf | hf
    · left
      split at hf
      · exact (deleteFeatures_sublist _ _).subset hf
      · exact hf
    · obtain ⟨n, hn, rfl⟩ := mem_map.1 hf
      exact .inr ⟨hn, rfl⟩
  intro f hf g hg heq
  rcases hold f hf with hf | ⟨hf, hfid⟩
  · rcases hold g hg with hg | ⟨hg, -⟩
    · exact h f hf g hg heq
    · exact absurd heq (hnone _ hg f hf)
  · rcases hold g hg with hg | ⟨-, hgid⟩
    · exact absurd heq.symm (hnone _ hf g hg)
    · rw [hfid, hgid]

theorem OneOwner.run (h : OneOwner r) (c : Call) (hok : CallOk r c.package) : OneOwner (c.run r) := by
  rw [Call.run, install]
  split
  · rename_i hcheck
    have hpass := (checkFeatureConflicts_iff r c.package).1 (Bool.and_eq_true_iff.1 hcheck).2
    refine h.importInfo ?_ c.id
    rcases hok with hnil | hok
    · simp [hnil]
    · rcases hpass with hnil | hnew
      · simp [hnil]
      · rwa [if_pos hnew] at hok
  · exact h

/-- **A run is right exactly if** no feature has two owners at its beginning, and each call meets the condition. -/
theorem runRight_iff (r : Registry) (cs : List Call) : RunRight r cs ↔ OneOwner r ∧ RunOk r cs := by
  induction cs generalizing r with
  | nil => exact (and_iff_left trivial).symm
  | cons c cs ih =>
    rw [RunRight, RunOk, check_right_iff, ih]
    constructor
    · rintro ⟨hone, hok, -, hrest⟩
      exact ⟨hone, hok, hrest⟩
    · rintro ⟨hone, hok, hrest⟩
      exact ⟨hone, hok, hone.run c hok, hrest⟩

def emptyRegistry : Registry := ⟨fun _ => none, [], fun _ => [], -1, by decide, nofun⟩

/-- The feature `f` is installed as part of the package `a`. -/
def firstCall : Call := ⟨⟨['a'], [['f']]⟩, ⟨1, by decide⟩, true⟩

/-- **An upgrade** of the package with a feature of its own is refused, and a package `b` with the same feature is
installed; the feature then has two owners. -/
theorem runRight_wrong :
    (NoConflict (firstCall.run emptyRegistry) firstCall.package ∧
      (checkFeatureConflicts (firstCall.run emptyRegistry) firstCall.package).1 = false) ∧
    ¬OneOwner ((Call.mk ⟨['b'], [['f']]⟩ ⟨2, by decide⟩ true).run (firstCall.run emptyRegistry)) := by
  refine ⟨⟨?_, by decide⟩, ?_⟩
  · intro n _ f hf _
    obtain rfl := mem_singleton.1 hf
    rfl
  · intro h
    have hsame := h ⟨['f'], 1⟩ mem_cons_self ⟨['f'], 2⟩ (mem_cons_of_mem _ mem_cons_self) rfl
    cases hsame

end Btos.User.Package
