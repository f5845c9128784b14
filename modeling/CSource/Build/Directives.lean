import CSource.Build.Scopes

/-!
Calls that make directives in a scope, and those that add branches to a conditional.
-/

namespace CSource.Build

def placeDirective (scope : ScopeRef) (n : DirectiveNode) : Build DirectiveRef := do
  pushDirective scope (← alloc .directive n)

def placeMacroFunction (scope : ScopeRef) (name : String) (params : List String) :
    Build (Typed .functionMacro) := do
  let body ← newScope .macroBody
  pure ⟨← placeDirective scope (.defineFunction name params body)⟩

def ownCondition : Condition → Build Unit
  | .holds cond => own cond
  | .isDefined _ | .isUndefined _ => pure ()

def placeConditional (scope : ScopeRef) (branch : BranchKind) (head : Condition) :
    Build (Typed (.conditional branch)) := do
  ownCondition head
  let body ← newScope branch.scopeKind
  pure ⟨← placeDirective scope (.conditional ⟨head, body, [], none, branch⟩)⟩

def textLimit : Nat := 0x7fffffffffffffff

/-- Text that repeats one piece, such as blank lines. Its size is checked before anything is made. -/
def placeRepeated (scope : ScopeRef) (piece : String) (count : Nat) : Build DirectiveRef := do
  if textLimit < count * piece.utf8ByteSize then throw .oversized
  placeDirective scope (.raw (String.join (List.replicate count piece)))

def placeComment (scope : ScopeRef) (text : String) : Build DirectiveRef :=
  placeDirective scope (.raw ("/* " ++ text ++ " */"))

def placeLineComment (scope : ScopeRef) (text : String) : Build DirectiveRef :=
  placeDirective scope (.raw ("// " ++ text ++ "\n"))

def placeNamespace (scope : ScopeRef) (name : QualName) : Build (Typed .namespaceBlock) := do
  require .namespaceBlock
  let body ← newScope .topLevel
  pure ⟨← placeDirective scope (.namespaceBlock name body)⟩

def placeUsingDirective (scope : ScopeRef) (name : QualName) : Build DirectiveRef := do
  require .usingDirective
  placeDirective scope (.usingNamespace name)

def placeUsingName (scope : ScopeRef) (name : QualName) : Build DirectiveRef := do
  require .usingDeclaration
  placeDirective scope (.usingName name)

def readConditional {b : BranchKind} (c : Typed (.conditional b)) : Build Conditional := do
  match ← read (·.node c.handle) with
  | .conditional data => pure data
  | other => throw (.unexpected .conditional other.kindName)

def addElif {b : BranchKind} (c : Typed (.conditional b)) (cond : ExprRef) : Build Place := do
  own cond
  let data ← readConditional c
  let body ← newScope data.branch.scopeKind
  update c.handle (.conditional { data with elifs := data.elifs ++ [⟨cond, body⟩] })
  pure ⟨b.placeKind, body⟩

def elseOfConditional {b : BranchKind} (c : Typed (.conditional b)) : Build Place := do
  let data ← readConditional c
  match data.otherwise with
  | some scope => pure ⟨b.placeKind, scope⟩
  | none =>
    let body ← newScope data.branch.scopeKind
    update c.handle (.conditional { data with otherwise := some body })
    pure ⟨b.placeKind, body⟩

end CSource.Build
