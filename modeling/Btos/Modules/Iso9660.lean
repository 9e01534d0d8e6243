import Mathlib.Tactic.Common

/-!
# Looking up paths on a CD-ROM

`ISOMountedFilesystem::GetNode` (`modules/fs/iso9660/iso9660.cpp`).  `lib9660` is a parameter: `entry` says what stands
under a name in a directory, and `opendirat` and `openat` open it or fail.

* **One component too many.** `get_parent` goes through all components of the path, also the last one, and the last
  one is then looked up once more in the directory that it names.
* **`getNode_right_iff`** — a file is never found.  A directory is found only if it has an entry for itself under its
  last component; the root needs one without a name, since `GetNode` does not mark its node as the root.
-/

namespace Btos.Modules.Iso9660

open List

/-- **What stands under a name**: a file with its size, or a directory. -/
inductive Entry (Dir : Type)
  | file (size : ℕ)
  | dir (d : Dir)
  deriving DecidableEq

/-- **`l9660_status`**, without success. -/
inductive Status
  | enoent | enotdir | enotfile
  deriving DecidableEq

/-- `fs_item_types`. -/
inductive ItemType
  | file | directory
  deriving DecidableEq

/-- **`ISOFilesystemNode`**, as `GetNode` makes it: `root` keeps its default. -/
structure Node (Dir : Type) where
  parent : Dir
  name : List Char
  size : ℕ
  type : ItemType
  root : Bool
  deriving DecidableEq

/-- **The constructor**: `strncpy` of `BT_MAX_SEGLEN` characters, and a semicolon ends the name. -/
def newNode {Dir : Type} (parent : Dir) (name : List Char) (size : ℕ) (type : ItemType) : Node Dir :=
  ⟨parent, (name.take 256).takeWhile (· ≠ ';'), size, type, false⟩

/-- `cur` is put behind the components, if it is not empty. -/
def pushComponent (ret : List (List Char)) (cur : List Char) : List (List Char) :=
  if cur = [] then ret else ret ++ [cur]

/-- The loop of `split_path`. -/
def splitLoop (ret : List (List Char)) (cur : List Char) : List Char → List (List Char)
  | [] => pushComponent ret cur
  | c :: path => if c = '/' then splitLoop (pushComponent ret cur) [] path else splitLoop ret (cur ++ [c]) path

def splitPath (path : List Char) : List (List Char) := splitLoop [] [] path

def isPathRoot : List (List Char) → Bool
  | [] => true
  | p :: _ => p.isEmpty

section

variable {Dir : Type} (entry : Dir → List Char → Option (Entry Dir)) (root : Dir)

/-- `l9660_opendirat`. -/
def opendirat (d : Dir) (name : List Char) : Except Status Dir :=
  match entry d name with
  | some (.dir d') => .ok d'
  | some (.file _) => .error .enotdir
  | none => .error .enoent

/-- **`l9660_openat`**: the size of the file. -/
def openat (d : Dir) (name : List Char) : Except Status ℕ :=
  match entry d name with
  | some (.file size) => .ok size
  | some (.dir _) => .error .enotfile
  | none => .error .enoent

/-- **`get_parent`**, from the directory `d`. -/
def getParent (d : Dir) : List (List Char) → Option Dir
  | [] => some d
  | p :: path =>
    match opendirat entry d p with
    | .ok d' => getParent d' path
    | .error _ => none

def getNode (path : List Char) : Option (Node Dir) :=
  let fsPath := splitPath path
  if isPathRoot fsPath then some (newNode root [] 0 .directory)
  else match getParent entry root fsPath with
    | none => none
    | some parent =>
      let back := fsPath.getLastD []
      match openat entry parent back with
      | .ok size => some (newNode parent back size .file)
      | .error .enotfile => some (newNode parent back 0 .directory)
      | .error _ => none

/-- **`ISOFilesystemNode::OpenDirectory`**: the directory that the handle lists. -/
def Node.openDirectory (n : Node Dir) : Option Dir :=
  if n.type = .directory then if n.root then some n.parent else (opendirat entry n.parent n.name).toOption
  else none

/-! ### What it is for -/

/-- The walk along the components of a path. -/
def walk (d : Dir) : List (List Char) → Option (Entry Dir)
  | [] => some (.dir d)
  | p :: path =>
    match entry d p with
    | some (.dir d') => walk d' path
    | some (.file size) => if path = [] then some (.file size) else none
    | none => none

/-- The node is the right one for what the walk ends at. -/
def NodeRight : Option (Entry Dir) → Option (Node Dir) → Prop
  | none, n => n = none
  | some (.file size), n => ∃ m, n = some m ∧ m.type = .file ∧ m.size = size
  | some (.dir d), n => ∃ m, n = some m ∧ m.type = .directory ∧ m.openDirectory entry = some d

/-- **The condition on a path**: the walk fails, or it ends at a directory that has an entry for itself under the name
that its node gets. -/
def PathOk (fsPath : List (List Char)) : Prop :=
  match walk entry root fsPath with
  | none => True
  | some (.file _) => False
  | some (.dir d) => (fsPath ≠ [] → ∃ d', entry d (fsPath.getLastD []) = some (.dir d')) ∧
      entry d (newNode d (fsPath.getLastD []) 0 .directory).name = some (.dir d)

variable {entry root}

/-- `get_parent` goes where the walk goes, if that is a directory. -/
theorem getParent_eq_some_iff : getParent entry d path = some d' ↔ walk entry d path = some (.dir d') := by
  induction path generalizing d with
  | nil => simp [getParent, walk]
  | cons p path ih =>
    cases he : entry d p with
    | none => simp [getParent, walk, opendirat, he]
    | some e =>
      cases e with
      | file size => simp [getParent, walk, opendirat, he]
      | dir d1 => simp [getParent, walk, opendirat, he, ih]

theorem getParent_eq_none (h : ∀ d', walk entry d path ≠ some (.dir d')) : getParent entry d path = none :=
  Option.eq_none_iff_forall_ne_some.mpr fun d' hd => h d' (getParent_eq_some_iff.mp hd)

theorem opendirat_eq_some_iff :
    (opendirat entry d name).toOption = some d' ↔ entry d name = some (.dir d') := by
  unfold opendirat
  split <;> simp_all [Except.toOption]

theorem ne_nil_of_mem_pushComponent (hret : ∀ p ∈ ret, p ≠ []) (cur : List Char) :
    ∀ p ∈ pushComponent ret cur, p ≠ [] := by
  unfold pushComponent
  split
  · exact hret
  · exact forall_mem_append.mpr ⟨hret, by simpa⟩

theorem ne_nil_of_mem_splitLoop {path ret cur} (hret : ∀ p ∈ ret, p ≠ []) : ∀ p ∈ splitLoop ret cur path, p ≠ [] := by
  induction path generalizing ret cur with
  | nil => exact ne_nil_of_mem_pushComponent hret cur
  | cons c path ih =>
    unfold splitLoop
    split
    · exact ih (ne_nil_of_mem_pushComponent hret cur)
    · exact ih hret

end

/-- **`GetNode` returns the right node exactly for the paths that meet the condition.** -/
theorem getNode_right_iff {Dir : Type} (entry : Dir → List Char → Option (Entry Dir)) (root : Dir) (path : List Char) :
    NodeRight entry (walk entry root (splitPath path)) (getNode entry root path) ↔
      PathOk entry root (splitPath path) := by
  unfold getNode
  cases hs : splitPath path with
  | nil =>
    simpa [isPathRoot, walk, NodeRight, PathOk, Node.openDirectory, newNode] using opendirat_eq_some_iff
  | cons p ps =>
    have hp : p ≠ [] := ne_nil_of_mem_splitLoop (by simp) p (hs ▸ mem_cons_self)
    have hroot : isPathRoot (p :: ps) = false := isEmpty_eq_false_iff.mpr hp
    simp only [hroot, Bool.false_eq_true, if_false]
    cases hw : walk entry root (p :: ps) with
    | none =>
      rw [getParent_eq_none fun d' => by simp [hw]]
      simp [NodeRight, PathOk, hw]
    | some e =>
      cases e with
      | file size =>
        rw [getParent_eq_none fun d' => by simp [hw]]
        simp [NodeRight, PathOk, hw]
      | dir d =>
        rw [getParent_eq_some_iff.mpr hw]
        simp only [NodeRight, PathOk, hw, openat]
        cases he : entry d ((p :: ps).getLastD []) with
        | none => simp
        | some e =>
          cases e with
          | file size => simp [newNode]
          | dir d' => simp [newNode, Node.openDirectory, opendirat_eq_some_iff]

/-- A file in the root directory is not found. -/
theorem getNode_misses_file :
    let entry : Unit → List Char → Option (Entry Unit) := fun _ name => if name = ['f'] then some (.file 5) else none
    walk entry () (splitPath ['/', 'f']) = some (.file 5) ∧ getNode entry () ['/', 'f'] = none := by
  decide

end Btos.Modules.Iso9660
