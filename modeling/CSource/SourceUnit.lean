import CSource.Build.Scopes
import CSource.Files.Output
import CSource.Render.Text

/-!
Source units: a sequence of top-level scopes, of which there is always a first one.
-/

namespace CSource

structure SourceUnit where
  first : Place
  rest : List Place
  deriving DecidableEq, Repr

namespace SourceUnit

def topLevels (u : SourceUnit) : List Place := u.first :: u.rest

def new : Build SourceUnit := do
  pure ⟨← Build.newTopLevel, []⟩

def addTopLevel (u : SourceUnit) : Build (SourceUnit × Place) := do
  let p ← Build.newTopLevel
  pure ({ u with rest := u.rest ++ [p] }, p)

def render (a : Arena) (u : SourceUnit) : Except Misuse String := do
  let texts ← u.topLevels.mapM fun p => a.render p.scope.ref
  pure (String.join (texts.map (· ++ "\n")))

def toFile (a : Arena) (u : SourceUnit) (path : Files.Path) : Except Misuse Files.OutputFile := do
  pure ⟨path, ← u.render a, .always⟩

def writeAsking (a : Arena) (u : SourceUnit) (path : Files.Path) (rules : Files.WriteRules) (answered : Bool)
    (fs : Files.FileSystem) : Except Misuse (Files.WriteOutcome × Files.FileSystem) := do
  let file ← u.toFile a path
  pure ({ file with rules := rules }.writeAsking answered fs)

def write (a : Arena) (u : SourceUnit) (path : Files.Path) (rules : Files.WriteRules)
    (fs : Files.FileSystem) : Except Misuse (Files.WriteOutcome × Files.FileSystem) :=
  u.writeAsking a path rules true fs

def failureText (a : Arena) : String := "failed to emit " ++ a.dialect.name ++ " unit"

end SourceUnit

end CSource
