import Btos.Lib.Segments
import Btos.User.Newlib.PathAgree

/-!
# Installing a package

`cmds/package/operations.cpp` and `packagefile.cpp`.  The members of an archive whose names start with the package's content
path are extracted to the installation path, the shortest ones first.  The path of each is normalised, and it has to start
with the installation path.

* `extractLoop`, `extractFiles` — **the extraction**, with the files and directories it creates;
* `Contained`, `ExtractsInside` — **no member is created outside**, whatever the file system says and in whichever order
  members of the same length are sorted;
* `InstallPath.Fits`, `InstallPath.Inside`, `InstallPath.Beside` — a path with room for it, one inside, and one in a
  directory **beside the installation directory, whose name starts with that directory's name**.
-/

namespace Btos.User.Package

open User.Newlib
open Lib.Segments

/-! ### Paths -/

def startsWith (str start : List Char) : Bool :=
  if str.length < start.length then false else str.take start.length = start

/-- `ParsePath`.  There is no result if memory outside of the arrays is written, or if the string is not ended. -/
def parsePath (o : Outside) (cwd path : List Char) : Option (List Char) :=
  match btosPathParseWrites o cwd path btMaxPath with
  | .returned true buffer => if nul ∈ buffer then some (cString buffer) else none
  | .returned false _ => some []
  | .wrote | .died => none

/-- The path of `InstallPackage`. -/
def installPath (o : Outside) (cwd path : List Char) : Option (List Char) :=
  (parsePath o cwd path).map fun p => if p.getLast? = some '/' then p.dropLast else p

/-! ### The archive -/

/-- A member of the archive, as the reader returns it. -/
structure Member where
  fileName : List Char
  isDirectory : Bool
  deriving DecidableEq, Repr

def filterFilename (name : List Char) : List Char :=
  if startsWith name ['.', '/'] then name.drop 2 else name

def getInstallPath (contentPath name : List Char) : List Char := (filterFilename name).drop contentPath.length

def isContent (contentPath name : List Char) : Bool :=
  startsWith (filterFilename name) contentPath && getInstallPath contentPath name ≠ []

/-- `FS_Directory` and `FS_File`. -/
inductive FileType where
  | directory
  | file
  deriving DecidableEq, Repr

structure ContentFile where
  path : List Char
  type : FileType
  deriving DecidableEq, Repr

/-- `PackageFile`: its archive, and the fields that are used here. -/
structure PackageFile where
  members : List Member
  contentPath : List Char
  content : List ContentFile

def PackageFile.parseContent (pkg : PackageFile) : PackageFile :=
  { pkg with content := pkg.content ++ (pkg.members.filter fun m => isContent pkg.contentPath m.fileName).map fun m =>
      ⟨getInstallPath pkg.contentPath m.fileName, if m.isDirectory then .directory else .file⟩ }

/-! ### The extraction -/

structure Env where
  cwd : List Char
  outside : ℕ → Outside
  /-- The installation path is a directory. -/
  isDirectory : Bool
  /-- A file or directory can be created. -/
  succeeds : ℕ → Bool

/-- A file or directory that has been created. -/
structure Entry where
  path : List Char
  type : FileType
  deriving DecidableEq, Repr

/-- What `ExtractFiles` returns, with what it has created. -/
structure Extraction where
  success : Bool
  created : List Entry
  messages : List (List Char)
  deriving DecidableEq, Repr

def couldNotCreate : FileType → List Char → List Char
  | .directory, path => "Could not create directory \"".toList ++ path ++ "\".".toList
  | .file, path => "Could not create file \"".toList ++ path ++ "\".".toList

def invalidPath (path : List Char) : List Char := "Invalid path: \"".toList ++ path ++ "\".".toList

def extractLoop (env : Env) (path : List Char) : List ContentFile → List Entry → Option Extraction
  | [], created => some ⟨true, created, []⟩
  | c :: cs, created =>
      match parsePath (env.outside created.length) env.cwd (path ++ '/' :: c.path) with
      | none => none
      | some finalPath =>
          if !startsWith finalPath path then some ⟨false, created, [invalidPath c.path]⟩
          else if env.succeeds created.length then extractLoop env path cs (created ++ [⟨finalPath, c.type⟩])
          else some ⟨false, created, [couldNotCreate c.type finalPath]⟩

/-- **`ExtractFiles`**, for the members as `std::sort` has left them. -/
def extractFiles (env : Env) (path : List Char) (sorted : List ContentFile) : Option Extraction :=
  if env.isDirectory then extractLoop env path sorted []
  else if env.succeeds 0 then extractLoop env path sorted [⟨path, .directory⟩]
  else some ⟨false, [], [couldNotCreate .directory path]⟩

/-- A result of `std::sort`; the order of members of the same length is not determined. -/
def IsSorted (content sorted : List ContentFile) : Prop :=
  sorted.Perm content ∧ sorted.Pairwise fun a b => a.path.length ≤ b.path.length

/-- A path in the installation directory, or that directory. -/
def Contained (path q : List Char) : Prop := q = path ∨ path ++ ['/'] <+: q

def ExtractsInside (path : List Char) (pkg : PackageFile) : Prop :=
  ∀ env sorted, IsSorted pkg.parseContent.content sorted →
    ∃ r, extractFiles env path sorted = some r ∧ ∀ e ∈ r.created, Contained path e.path

/-! ### The installation path -/

/-- A normalised path, without a slash at its end. -/
structure InstallPath where
  name : List Char
  segs : List (List Char)
  name_plain : ∀ c ∈ name, c ≠ ':' ∧ ¬ IsSeparator c
  segs_plain : ∀ s ∈ segs, s ≠ [] ∧ '/' ∉ s

def segments (t : Text) : List (List Char) := t.segs ++ if t.cur = [] then [] else [t.cur]

namespace InstallPath

variable (p : InstallPath)

def drive : List Char := p.name ++ [':']

def path : List Char := p.drive ++ slashed '/' p.segs

/-- The member's path, in the memory of `btos_path_parse`. -/
def memory (m : List Char) : List Char := pathMemory [] (p.path ++ '/' :: m)

def Fits (m : List Char) : Prop := Newlib.Fits btMaxPath .empty true (p.memory m)

/-- **The segments** that the member's path has in the end. -/
def resolved (m : List Char) : Option (List (List Char)) :=
  (readPath btMaxPath .empty true (p.memory m)).map segments

/-- The first segments are those of the installation path. -/
def Inside (m : List Char) : Prop := p.Fits m ∧ ∃ segs, p.resolved m = some segs ∧ p.segs <+: segs

/-- The last segment of the installation path goes on. -/
def Beside (m : List Char) : Prop := ∃ segs, p.resolved m = some segs ∧ Extends p.segs segs

end InstallPath

end Btos.User.Package
