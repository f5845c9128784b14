import CSource.Build.Exprs

/-!
Placing. Every call here puts one entry at the end of a scope, after the handles it was given have passed. A
declaration stands in a scope as it is or as a statement of its own, which ends in a semicolon.
-/

namespace CSource.Build

def newTopLevel : Build Place := do
  pure ⟨.topLevel, ← newScope .topLevel⟩

def ownEntry : Entry → Build Unit
  | .decl d => own d
  | .stmt s => own s
  | .directive d => own d

def pushEntry (scope : ScopeRef) (e : Entry) : Build Unit := do
  ownEntry e
  let node ← read (·.node scope)
  update scope { node with entries := node.entries ++ [e] }

def pushDecl (scope : ScopeRef) (d : DeclRef) : Build DeclRef := do
  pushEntry scope (.decl d)
  pure d

def pushStmt (scope : ScopeRef) (s : StmtRef) : Build StmtRef := do
  pushEntry scope (.stmt s)
  pure s

def pushDirective (scope : ScopeRef) (d : DirectiveRef) : Build DirectiveRef := do
  pushEntry scope (.directive d)
  pure d

def declStmt (d : DeclRef) : Build StmtRef := do
  own d
  alloc .stmt (.decl d)

def pushDeclStmt (scope : ScopeRef) (d : DeclRef) : Build DeclRef := do
  let s ← declStmt d
  pushEntry scope (.stmt s)
  pure d

def defRaw (scope : ScopeRef) (text : String) : Build DeclRef := do
  pushDecl scope (← rawDecl text)

def defVar (scope : ScopeRef) (name : QualName) (ty : TypeRef) (init : Option ExprRef) : Build DeclRef := do
  pushDeclStmt scope (← varDecl name ty init)

def defArrayVar (scope : ScopeRef) (name : QualName) (ty : TypeRef) (sizes : List ExprRef)
    (init : Option ExprRef) : Build DeclRef := do
  pushDeclStmt scope (← arrayVarDecl name ty sizes init)

def defConstructedVar (scope : ScopeRef) (name : QualName) (ty : TypeRef) (args : List ExprRef)
    (braced : Bool) : Build DeclRef := do
  pushDeclStmt scope (← constructedVarDecl name ty args braced)

def defTypedef (scope : ScopeRef) (name : QualName) (aliased : TypeRef) : Build TypeRef := do
  let (decl, ty) ← newSynonym name aliased .typeDef
  discard <| pushDeclStmt scope decl
  pure ty

def defUsing (scope : ScopeRef) (name : QualName) (aliased : TypeRef) : Build TypeRef := do
  require .aliasDeclaration
  let (decl, ty) ← newSynonym name aliased .usingType
  discard <| pushDeclStmt scope decl
  pure ty

def defVarTemplate (scope : ScopeRef) (name : QualName) (templateParams : List DeclRef) (ty : TypeRef)
    (init : Option ExprRef) : Build (DeclRef × DeclRef) := do
  let var ← varDecl name ty init
  let template ← templateDecl templateParams var
  discard <| pushDeclStmt scope template
  pure (template, var)

def defUsingTemplate (scope : ScopeRef) (name : QualName) (templateParams : List DeclRef)
    (aliased : TypeRef) : Build (DeclRef × TypeRef) := do
  require .aliasTemplate
  let (decl, ty) ← newSynonym name aliased .usingType
  let template ← templateDecl templateParams decl
  discard <| pushDeclStmt scope template
  pure (template, ty)

def defAggregate (scope : ScopeRef) (kind : AggregateKind) (name : QualName) : Build ClassRef := do
  let c ← newAggregate kind name
  discard <| pushDeclStmt scope c.decl
  pure c

def defEnum (scope : ScopeRef) (name : QualName) (key : Option EnumKey) : Build EnumRef := do
  let e ← newEnum name key
  discard <| pushDeclStmt scope e.decl
  pure e

def defAggregateTemplate (scope : ScopeRef) (kind : AggregateKind) (name : QualName)
    (templateParams : List DeclRef) : Build (DeclRef × ClassRef) := do
  require .classTemplate
  let c ← newAggregate kind name
  let template ← templateDecl templateParams c.decl
  discard <| pushDeclStmt scope template
  pure (template, c)

def declareAggregate (scope : ScopeRef) (c : ClassRef) : Build DeclRef := do
  pushDeclStmt scope (← forwardAggregate c)

def declareEnum (scope : ScopeRef) (e : EnumRef) : Build DeclRef := do
  pushDeclStmt scope (← forwardEnum e)

end CSource.Build
