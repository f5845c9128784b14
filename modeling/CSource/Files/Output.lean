import CSource.Files.FileSystem

/-!
Output files: content for a path, under rules on what to put in front of it and when to leave a present file
alone.
-/

namespace CSource.Files

inductive Overwrite where
  | always
  | ifMissing
  deriving DecidableEq, Repr

structure WriteRules where
  overwrite : Overwrite
  header : Option String
  deriving DecidableEq, Repr

def WriteRules.always : WriteRules := ⟨.always, none⟩

structure OutputFile where
  path : Path
  content : String
  rules : WriteRules
  deriving DecidableEq, Repr

inductive WriteError where
  | directory (path : Path)
  | file (path : Path)
  deriving DecidableEq, Repr

namespace WriteError

def path : WriteError → Path
  | directory p => p
  | file p => p

def message : WriteError → String
  | directory p => "failed to create directory '" ++ p.text ++ "'"
  | file p => "failed to write '" ++ p.text ++ "'"

end WriteError

inductive WriteOutcome where
  | written
  | skipped
  | failed (cause : WriteError)
  deriving DecidableEq, Repr

namespace OutputFile

def new (path : Path) (content : String) : OutputFile := ⟨path, content, .always⟩

def render (f : OutputFile) : String := f.rules.header.getD "" ++ f.content

def present (f : OutputFile) (fs : FileSystem) : Bool := fs.pathExists f.path

def put (f : OutputFile) (fs : FileSystem) : WriteOutcome × FileSystem :=
  match fs.makeDirectories f.path.parent with
  | (false, fs) => (.failed (.directory f.path.parent), fs)
  | (true, fs) =>
    match fs.store f.path f.render with
    | some fs => (.written, fs)
    | none => (.failed (.file f.path), fs)

/-- The write where the system answers the question whether the path exists, or fails to. Without an answer the file
counts as missing. -/
def writeAsking (f : OutputFile) (answered : Bool) (fs : FileSystem) : WriteOutcome × FileSystem :=
  if f.rules.overwrite = .ifMissing ∧ (answered && f.present fs) then (.skipped, fs) else f.put fs

def write (f : OutputFile) (fs : FileSystem) : WriteOutcome × FileSystem := f.writeAsking true fs

end OutputFile

end CSource.Files
