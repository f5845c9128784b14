import CSource.Arena

/-!
Names read from the arena: the name of a tag type, and the name by which a declaration is referred to. A template
has the name of what it wraps, and the first half of a split function that of the function.
-/

namespace CSource.Arena

def tagName (a : Arena) (ty : TypeRef) : Except Misuse QualName := do
  match ← a.node ty with
  | .aggregate data => pure data.name
  | .enumeration data => pure data.name
  | .synonym name _ => pure name
  | other => .error (.unexpected .namedType other.kindName)

def aggregateAt (a : Arena) (ty : TypeRef) : Except Misuse Aggregate := do
  match ← a.node ty with
  | .aggregate data => pure data
  | other => .error (.unexpected .aggregateType other.kindName)

def functionAt (a : Arena) (d : DeclRef) : Except Misuse FuncDecl := do
  match ← a.node d with
  | .function data => pure data
  | other => .error (.unexpected .function other.kindName)

def variableAt (a : Arena) (d : DeclRef) : Except Misuse VarDecl := do
  match ← a.node d with
  | .var data => pure data
  | other => .error (.unexpected .variable other.kindName)

/-- The name of a declaration, looking through at most `depth` templates and split halves. -/
def declNameWithin (a : Arena) : Nat → DeclRef → Except Misuse QualName
  | 0, _ => .error .endless
  | depth + 1, d => do
    match ← a.node d with
    | .raw text => pure (.ofString text)
    | .var data => pure data.name
    | .function data => pure data.name
    | .splitForward func => a.declNameWithin depth func
    | .template _ inner => a.declNameWithin depth inner
    | .aggregate ty _ | .enumeration ty _ | .typeDef ty | .usingType ty => a.tagName ty

def declName (a : Arena) (d : DeclRef) : Except Misuse QualName :=
  a.declNameWithin (a.decls.size + 1) d

def qualify (a : Arena) (d : DeclRef) (segment : String) : Except Misuse QualName := do
  pure ((← a.declName d).join segment)

end CSource.Arena
