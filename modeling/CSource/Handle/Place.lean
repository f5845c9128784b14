import CSource.Handle
import CSource.Node.Scope

/-!
Places: a scope together with what it is filled as. The kind of a place decides what may be put there; it need not
be the kind of the scope.
-/

namespace CSource

inductive PlaceKind where
  | topLevel
  | function
  | macroBody
  | member
  deriving DecidableEq, Repr

namespace PlaceKind

def takesTypes : PlaceKind → Bool
  | macroBody => false
  | topLevel | function | member => true

def takesStatements : PlaceKind → Bool
  | function | macroBody => true
  | topLevel | member => false

/-- The branch kind of conditionals put here; none where directives are not taken. -/
def branch? : PlaceKind → Option BranchKind
  | topLevel => some .topLevel
  | function => some .function
  | macroBody | member => none

end PlaceKind

structure Place where
  kind : PlaceKind
  scope : ScopeRef
  deriving DecidableEq, Repr

def BranchKind.placeKind : BranchKind → PlaceKind
  | topLevel => .topLevel
  | function => .function

end CSource
