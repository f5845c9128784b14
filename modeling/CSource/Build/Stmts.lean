import CSource.Build.Scopes

/-!
Calls that make statements in a scope, and those that add branches, cases and handlers to them.
-/

namespace CSource.Build

def placeStmt (scope : ScopeRef) (n : StmtNode) : Build StmtRef := do
  pushStmt scope (← alloc .stmt n)

def placeExpr (scope : ScopeRef) (e : ExprRef) : Build StmtRef := do
  own e
  placeStmt scope (.expr e)

def placeDecl (scope : ScopeRef) (d : DeclRef) : Build StmtRef := do
  pushStmt scope (← declStmt d)

def placeIf (scope : ScopeRef) (init : Option DeclRef) (cond : ExprRef) (isConstexpr : Bool) :
    Build (Typed .ifElse) := do
  requireIf init.isSome .ifInitializer
  requireIf isConstexpr .ifConstexpr
  ownOption init
  own cond
  let body ← newBody
  pure ⟨← placeStmt scope (.ifElse ⟨init, cond, isConstexpr, body, [], none⟩)⟩

def placeWhile (scope : ScopeRef) (cond : ExprRef) : Build (Typed .loop) := do
  own cond
  let body ← newBody
  pure ⟨← placeStmt scope (.whileLoop cond body)⟩

def placeFor (scope : ScopeRef) (init : Option StmtRef) (cond step : Option ExprRef) :
    Build (Typed .loop) := do
  ownOption init
  ownOption cond
  ownOption step
  let body ← newBody
  pure ⟨← placeStmt scope (.forLoop init cond step body)⟩

def placeForDecl (scope : ScopeRef) (init : DeclRef) (cond step : Option ExprRef) : Build (Typed .loop) := do
  let s ← declStmt init
  placeFor scope (some s) cond step

def placeForExpr (scope : ScopeRef) (init : ExprRef) (cond step : Option ExprRef) : Build (Typed .loop) := do
  own init
  let s ← alloc .stmt (.expr init)
  placeFor scope (some s) cond step

def placeForRange (scope : ScopeRef) (decl : DeclRef) (range : ExprRef) : Build (Typed .loop) := do
  require .rangeFor
  own decl
  own range
  let body ← newBody
  pure ⟨← placeStmt scope (.forRange decl range body)⟩

def placeDoWhile (scope : ScopeRef) (cond : ExprRef) : Build (Typed .loop) := do
  own cond
  let body ← newBody
  pure ⟨← placeStmt scope (.doWhile cond body)⟩

def placeBlock (scope : ScopeRef) : Build Place := do
  let body ← newBody
  discard <| placeStmt scope (.block body)
  pure ⟨.function, body⟩

def placeReturn (scope : ScopeRef) (value : Option ExprRef) : Build StmtRef := do
  ownOption value
  placeStmt scope (.returnValue value)

def placeLabeledExpr (scope : ScopeRef) (name : String) (e : ExprRef) : Build StmtRef := do
  own e
  let inner ← alloc .stmt (.expr e)
  placeStmt scope (.label name (some inner))

def placeSwitch (scope : ScopeRef) (init : Option DeclRef) (cond : ExprRef) : Build (Typed .switch) := do
  requireIf init.isSome .switchInitializer
  ownOption init
  own cond
  pure ⟨← placeStmt scope (.switch ⟨init, cond, []⟩)⟩

def placeThrow (scope : ScopeRef) (value : Option ExprRef) : Build StmtRef := do
  require .throwStatement
  ownOption value
  placeStmt scope (.throwValue value)

def placeTry (scope : ScopeRef) : Build (Typed .tryCatch) := do
  require .tryBlock
  let body ← newBody
  pure ⟨← placeStmt scope (.tryCatch ⟨body, []⟩)⟩

def placeUsingNamespace (scope : ScopeRef) (name : QualName) : Build StmtRef := do
  require .usingDirective
  placeStmt scope (.usingNamespace name)

def placeAssign (scope : ScopeRef) (lhs rhs : ExprRef) : Build StmtRef := do
  placeExpr scope (← binaryExpr lhs "=" rhs)

def placeCall (scope : ScopeRef) (callee : ExprRef) (args : List ExprRef) : Build StmtRef := do
  placeExpr scope (← callExpr callee args)

def placeDelete (scope : ScopeRef) (operand : ExprRef) (array : Bool) : Build StmtRef := do
  placeExpr scope (← deleteExpr operand array)

def placeVaList (scope : ScopeRef) (name : QualName) : Build DeclRef := do
  let ty ← rawType "va_list"
  pushDeclStmt scope (← varDecl name ty none)

def placeNamedCall (scope : ScopeRef) (callee : String) (args : List ExprRef) : Build StmtRef := do
  placeCall scope (← rawExpr callee) args

def placeVaStart (scope : ScopeRef) (list last : ExprRef) : Build StmtRef :=
  placeNamedCall scope "va_start" [list, last]

def placeVaCopy (scope : ScopeRef) (dest src : ExprRef) : Build StmtRef :=
  placeNamedCall scope "va_copy" [dest, src]

def placeVaEnd (scope : ScopeRef) (list : ExprRef) : Build StmtRef :=
  placeNamedCall scope "va_end" [list]

def modifyIf (s : Typed .ifElse) (f : IfStmt → IfStmt) : Build Unit := do
  match ← read (·.node s.handle) with
  | .ifElse data => update s.handle (.ifElse (f data))
  | other => throw (.unexpected .ifStatement other.kindName)

def addElseIf (s : Typed .ifElse) (init : Option DeclRef) (cond : ExprRef) : Build Place := do
  requireIf init.isSome .ifInitializer
  ownOption init
  own cond
  let body ← newBody
  modifyIf s fun d => { d with elseIfs := d.elseIfs ++ [⟨init, cond, body⟩] }
  pure ⟨.function, body⟩

def elseBranch (s : Typed .ifElse) : Build Place := do
  match ← read (·.node s.handle) with
  | .ifElse data =>
    match data.otherwise with
    | some scope => pure ⟨.function, scope⟩
    | none =>
      let body ← newBody
      modifyIf s fun d => { d with otherwise := some body }
      pure ⟨.function, body⟩
  | other => throw (.unexpected .ifStatement other.kindName)

def addCase (s : Typed .switch) (value : Option ExprRef) (fallthrough : Bool) : Build (Typed .caseLabel) := do
  ownOption value
  let body ← newBody
  let label ← alloc .stmt (.caseLabel ⟨value, body, fallthrough⟩)
  match ← read (·.node s.handle) with
  | .switch data => update s.handle (.switch { data with cases := data.cases ++ [label] })
  | other => throw (.unexpected .switchStatement other.kindName)
  pure ⟨label⟩

def addHandler (s : Typed .tryCatch) (decl : Option DeclRef) : Build Place := do
  ownOption decl
  let body ← newBody
  match ← read (·.node s.handle) with
  | .tryCatch data => update s.handle (.tryCatch { data with handlers := data.handlers ++ [⟨decl, body⟩] })
  | other => throw (.unexpected .tryBlock other.kindName)
  pure ⟨.function, body⟩

end CSource.Build
