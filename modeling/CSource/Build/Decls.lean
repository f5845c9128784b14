import CSource.Build.Types

/-!
Calls that make declarations, and those that change variables and functions afterwards.
-/

namespace CSource.Build

def rawDecl (text : String) : Build DeclRef := alloc .decl (.raw text)

def newVar (name : QualName) (ty : TypeRef) (init : Option ExprRef) (shape : VarShape) : Build DeclRef := do
  own ty
  ownOption init
  alloc .decl (.var ⟨name, ty, init, shape, .none⟩)

def varDecl (name : QualName) (ty : TypeRef) (init : Option ExprRef) : Build DeclRef :=
  newVar name ty init .plain

def arrayVarDecl (name : QualName) (ty : TypeRef) (sizes : List ExprRef) (init : Option ExprRef) :
    Build DeclRef := do
  ownEach sizes
  newVar name ty init (.array sizes)

def constructedVarDecl (name : QualName) (ty : TypeRef) (args : List ExprRef) (braced : Bool) :
    Build DeclRef := do
  require .constructorInitialization
  ownEach args
  newVar name ty none (.construct args braced)

/-- A split function has its body from the start; any other gets one when it is first asked for. -/
def newFunction (name : QualName) (ret : Option TypeRef) (params : List DeclRef) (variadic : Bool)
    (lifecycle : Lifecycle) (kind : FuncKind) (parent : Option TypeRef) : Build FunctionRef := do
  ownOption ret
  ownEach params
  let body ← if lifecycle = .split then some <$> newBody else pure none
  let decl ← alloc .decl (.function
    { name, ret, params, variadic, body, lifecycle, kind
      quals := .none
      method := parent.map (⟨·, .none⟩)
      inits := []
      defined := false })
  pure ⟨decl⟩

def functionDecl (name : QualName) (ret : TypeRef) (params : List DeclRef) (variadic : Bool) :
    Build FunctionRef :=
  newFunction name (some ret) params variadic .inPlace .free none

def templateDecl (params : List DeclRef) (inner : DeclRef) : Build DeclRef := do
  require .template
  ownEach params
  own inner
  alloc .decl (.template params inner)

def rawTemplateDecl (name : QualName) : Build DeclRef := do
  require .template
  let inner ← rawDecl name.text
  alloc .decl (.template [] inner)

def rawInstantiationType (name : QualName) (args : List TemplateArg) : Build TypeRef := do
  let template ← rawTemplateDecl name
  instantiationType template args

/-- The type that a declaration introduces as another name of a type, with that declaration. -/
def newSynonym (name : QualName) (aliased : TypeRef) (declare : TypeRef → DeclNode) :
    Build (DeclRef × TypeRef) := do
  own aliased
  let ty ← alloc .type (.synonym name aliased)
  let decl ← alloc .decl (declare ty)
  pure (decl, ty)

def setVarQualifiers (d : DeclRef) (quals : VarQualifiers) : Build Unit := do
  requireIf quals.isRestrict .restrictQualifier
  requireIf quals.isInline .inlineVariable
  let data ← read (·.variableAt d)
  update d (.var { data with quals := quals })

def functionBody (f : FunctionRef) : Build Place := do
  let data ← read (·.functionAt f.handle)
  if data.lifecycle = .forward then throw (.pureForward data.name)
  if let some special := data.special then throw (.bodyless data.name special)
  match data.body with
  | some body => pure ⟨.function, body⟩
  | none =>
    let body ← newBody
    update f.handle (.function { data with body := some body })
    pure ⟨.function, body⟩

def setFunctionQualifiers (f : FunctionRef) (quals : FuncQualifiers) : Build Unit := do
  requireIf quals.isConstexpr .constexprFunction
  let data ← read (·.functionAt f.handle)
  update f.handle (.function { data with quals := quals })

def setMethodQualifiers (f : FunctionRef) (quals : MethodQualifiers) : Build Unit := do
  let data ← read (·.functionAt f.handle)
  if let some special := quals.special then
    if data.body.isSome then throw (.hasBody data.name special)
  match data.method with
  | some method => update f.handle (.function { data with method := some { method with quals := quals } })
  | none => throw (.notMember data.name)

def markDefined (f : FunctionRef) : Build Unit := do
  let data ← read (·.functionAt f.handle)
  unless data.lifecycle = .split do throw (.notSplit data.name)
  if data.defined then throw (.alreadyDefined data.name)
  update f.handle (.function { data with defined := true })

def addMemberInit (f : FunctionRef) (member : QualName) (args : List ExprRef) : Build Unit := do
  ownEach args
  let data ← read (·.functionAt f.handle)
  unless data.kind = .constructor do throw (.notConstructor data.name)
  update f.handle (.function { data with inits := data.inits ++ [⟨member, args⟩] })

end CSource.Build
