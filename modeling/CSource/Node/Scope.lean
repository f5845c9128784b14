import CSource.Handle

/-!
Scopes: ordered lists of entries that only grow at the end.
-/

namespace CSource

inductive ScopeKind where
  | topLevel
  | function
  | macroBody
  | members (parent : TypeRef) (labeled : Bool)
  deriving DecidableEq, Repr

namespace ScopeKind

def kindName : ScopeKind → String
  | topLevel => "TopLevel"
  | function => "Function"
  | macroBody => "Macro"
  | members _ _ => "Members"

def endsLines : ScopeKind → Bool
  | topLevel => true
  | members _ labeled => labeled
  | function | macroBody => false

/-- The scope's text is one preprocessor line. -/
def continuesLines : ScopeKind → Bool
  | macroBody => true
  | _ => false

end ScopeKind

/-- The kinds of scope that a preprocessor conditional selects between. -/
inductive BranchKind where
  | topLevel
  | function
  deriving DecidableEq, Repr

def BranchKind.scopeKind : BranchKind → ScopeKind
  | topLevel => .topLevel
  | function => .function

inductive Entry where
  | decl (d : DeclRef)
  | stmt (s : StmtRef)
  | directive (d : DirectiveRef)
  deriving DecidableEq, Repr

def Entry.ref : Entry → NodeRef
  | decl d => d.ref
  | stmt s => s.ref
  | directive d => d.ref

structure ScopeNode where
  kind : ScopeKind
  entries : List Entry
  deriving DecidableEq, Repr

end CSource
