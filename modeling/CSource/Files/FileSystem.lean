import CSource.Files.Path

/-!
A file system: a table of directories, each numbered by its position and holding entries under names. Paths are walked
piece by piece; every piece is looked up in the directory reached so far. An absolute path starts from the root, which is
its own parent, and every other path from a directory that stands somewhere below it.
-/

namespace CSource.Files

inductive FileEntry where
  | directory (number : Nat)
  | file (content : String)
  deriving DecidableEq, Repr

/-- The first entry of a name is the one that counts. -/
structure Directory where
  parent : Nat
  entries : List (String × FileEntry)
  deriving DecidableEq, Repr

structure Location where
  directory : Nat
  name : String
  deriving DecidableEq, Repr

structure FileSystem where
  directories : Array Directory
  root : Nat
  start : Nat
  deriving DecidableEq, Repr

inductive Target where
  | directory (number : Nat)
  | file (loc : Location) (content : String)
  /-- A free name in a directory; `slashed` if a slash follows the name. -/
  | vacant (loc : Location) (slashed : Bool)
  /-- Nowhere, since a directory on the way is missing. -/
  | missing
  /-- Nowhere, since something on the way is not a directory. -/
  | blocked
  /-- Nowhere, since the path or a name on the way breaks a limit. -/
  | unusable
  deriving DecidableEq, Repr

namespace FileSystem

def fresh (height : Nat) : FileSystem :=
  ⟨((List.range (height + 1)).map fun n => ⟨n - 1, []⟩).toArray, 0, height⟩

def entryAt (fs : FileSystem) (loc : Location) : Option FileEntry :=
  fs.directories[loc.directory]?.bind fun d => d.entries.lookup loc.name

def parentOf (fs : FileSystem) (number : Nat) : Nat :=
  (fs.directories[number]?.map Directory.parent).getD number

def put (fs : FileSystem) (loc : Location) (entry : FileEntry) : FileSystem :=
  match fs.directories[loc.directory]? with
  | some d =>
    { fs with
      directories := fs.directories.setIfInBounds loc.directory { d with entries := (loc.name, entry) :: d.entries } }
  | none => fs

theorem entryAtPut (fs : FileSystem) {loc : Location} (inTable : loc.directory < fs.directories.size)
    (entry : FileEntry) (other : Location) :
    (fs.put loc entry).entryAt other = if other = loc then some entry else fs.entryAt other := by
  obtain ⟨number, name⟩ := loc
  obtain ⟨otherNumber, otherName⟩ := other
  simp only [put, Array.getElem?_eq_getElem inTable, entryAt]
  by_cases sameDirectory : otherNumber = number
  · subst sameDirectory
    by_cases sameName : otherName = name
    · simp [inTable, sameName]
    · have differs : (otherName == name) = false := by simpa using sameName
      simp [inTable, List.lookup_cons, differs, sameName]
  · simp [sameDirectory, Ne.symm sameDirectory]

def putDirectory (fs : FileSystem) (loc : Location) : FileSystem :=
  { fs with directories := fs.directories.push ⟨loc.directory, []⟩ }.put loc (.directory fs.directories.size)

def step (fs : FileSystem) (t : Target) (piece : String) : Target :=
  match t with
  | .directory number =>
    if piece = "" ∨ piece = "." then .directory number
    else if piece = ".." then .directory (fs.parentOf number)
    else if Path.nameLimit < piece.utf8ByteSize then .unusable
    else
      match fs.entryAt ⟨number, piece⟩ with
      | some (.directory inner) => .directory inner
      | some (.file content) => .file ⟨number, piece⟩ content
      | none => .vacant ⟨number, piece⟩ false
  | .file _ _ => .blocked
  | .vacant loc _ => if piece = "" then .vacant loc true else .missing
  | .missing => .missing
  | .blocked => .blocked
  | .unusable => .unusable

def origin (fs : FileSystem) (p : Path) : Nat := if p.isAbsolute then fs.root else fs.start

def resolve (fs : FileSystem) (p : Path) : Target :=
  if p.isEmpty then .missing
  else if p.isUsable then p.pieces.foldl fs.step (.directory (fs.origin p))
  else .unusable

def pathExists (fs : FileSystem) (p : Path) : Bool :=
  match fs.resolve p with
  | .directory _ | .file _ _ => true
  | _ => false

def isDirectory (fs : FileSystem) (p : Path) : Bool :=
  match fs.resolve p with
  | .directory _ => true
  | _ => false

def content? (fs : FileSystem) (p : Path) : Option String :=
  match fs.resolve p with
  | .file _ content => some content
  | _ => none

/-- Writes a file, in place of an old one or under a free name; none if that is not possible. -/
def store (fs : FileSystem) (p : Path) (content : String) : Option FileSystem :=
  match fs.resolve p with
  | .file loc _ => some (fs.put loc (.file content))
  | .vacant loc false => some (fs.put loc (.file content))
  | _ => none

def makeDirectory (fs : FileSystem) (p : Path) : Option FileSystem :=
  match fs.resolve p with
  | .vacant loc _ => some (fs.putDirectory loc)
  | _ => none

def ensureDirectory (fs : FileSystem) (p : Path) : Bool × FileSystem :=
  match fs.makeDirectory p with
  | some fs => (true, fs)
  | none => (fs.isDirectory p, fs)

/-- Makes a directory and those on the way to it that are missing, where the path has at most `depth` pieces. What
was made before a failure stays. -/
def makeDirectoriesWithin : Nat → FileSystem → Path → Bool × FileSystem
  | 0, fs, _ => (true, fs)
  | depth + 1, fs, p =>
    if p.isEmpty then (true, fs)
    else if fs.resolve p = .missing then
      match makeDirectoriesWithin depth fs p.parent with
      | (true, fs) => fs.ensureDirectory p
      | (false, fs) => (false, fs)
    else fs.ensureDirectory p

def makeDirectories (fs : FileSystem) (p : Path) : Bool × FileSystem :=
  makeDirectoriesWithin p.pieces.length fs p

end FileSystem

end CSource.Files
