import CSource.Proofs.Slot

/-!
How nodes start and grow. `Initial` is the form in which a node is stored, `Grows` is one change of a stored node,
and `features` are the constructs of one dialect that a node uses. None of them reads an arena.
-/

namespace CSource

def usedIf (used : Bool) (f : Feature) : List Feature := if used then [f] else []

def TypeNode.features : TypeNode → List Feature
  | reference _ => [.referenceType]
  | instantiation _ _ => [.templateInstantiation]
  | pack _ => [.parameterPack]
  | parameter _ => [.templateTypeParameter]
  | aggregate data =>
    usedIf (data.kind == .classKind) .classAggregate ++ usedIf data.isFinal .finalClass ++
      usedIf (!data.bases.isEmpty) .baseClass ++ usedIf (data.regions.any (·.access.isSome)) .accessSpecifier
  | enumeration data => usedIf data.key.isSome .scopedEnum
  | _ => []

def VarShape.features : VarShape → List Feature
  | .construct _ _ => [.constructorInitialization]
  | .plain | .array _ => []

def DeclNode.features : DeclNode → List Feature
  | var data =>
    data.shape.features ++ usedIf data.quals.isInline .inlineVariable ++
      usedIf data.quals.isRestrict .restrictQualifier
  | function data => usedIf data.quals.isConstexpr .constexprFunction ++ usedIf (data.kind != .free) .memberFunction
  | usingType _ => [.aliasDeclaration]
  | template _ _ => [.template]
  | _ => []

def ExprNode.features : ExprNode → List Feature
  | generic _ _ => [.genericSelection]
  | qualName _ => [.qualifiedName]
  | lambda _ => [.lambda]
  | new _ => [.newExpression]
  | delete _ _ => [.deleteExpression]
  | userLiteral _ _ => [.userLiteral]
  | instantiation _ _ => [.templateInstantiation]
  | packExpansion _ => [.packExpansion]
  | fold _ _ _ => [.foldExpression]
  | _ => []

def StmtNode.features : StmtNode → List Feature
  | ifElse data =>
    usedIf data.init.isSome .ifInitializer ++ usedIf data.isConstexpr .ifConstexpr ++
      usedIf (data.elseIfs.any (·.init.isSome)) .ifInitializer
  | forRange _ _ _ => [.rangeFor]
  | switch data => usedIf data.init.isSome .switchInitializer
  | throwValue _ => [.throwStatement]
  | tryCatch _ => [.tryBlock]
  | usingNamespace _ => [.usingDirective]
  | _ => []

def DirectiveNode.features : DirectiveNode → List Feature
  | namespaceBlock _ _ => [.namespaceBlock]
  | usingNamespace _ => [.usingDirective]
  | usingName _ => [.usingDeclaration]
  | _ => []

def TypeNode.isShared : TypeNode → Bool
  | raw _ | void | pointer _ | reference _ | array _ _ | named _ => true
  | _ => false

def TypeNode.Initial : TypeNode → Prop
  | aggregate data => data.isFinal = false ∧ data.bases = [] ∧ data.regions = []
  | enumeration data => data.underlying = none ∧ data.members = []
  | n => n.isShared = false

/-- A function has its kind, its return type and its aggregate from the start, and its body only if it is split. -/
structure FuncDecl.Initial (data : FuncDecl) : Prop where
  body : data.body.isSome ↔ data.lifecycle = .split
  member : data.method.isSome ↔ data.kind ≠ .free
  ret : data.ret.isNone ↔ data.kind = .constructor ∨ data.kind = .destructor
  special : data.special = none
  inits : data.inits = []
  defined : data.defined = false

def DeclNode.Initial : DeclNode → Prop
  | function data => data.Initial
  | _ => True

def ExprNode.Initial : ExprNode → Prop
  | generic _ assocs => assocs = []
  | _ => True

def StmtNode.Initial : StmtNode → Prop
  | ifElse data => data.elseIfs = [] ∧ data.otherwise = none
  | switch data => data.cases = []
  | tryCatch data => data.handlers = []
  | _ => True

def DirectiveNode.Initial : DirectiveNode → Prop
  | conditional data => data.elifs = [] ∧ data.otherwise = none
  | _ => True

inductive TypeNode.Grows : TypeNode → TypeNode → Prop where
  | region (data : Aggregate) (r : Region) (first : r.access = none → data.defaultScope = none) :
      Grows (.aggregate data) (.aggregate { data with regions := data.regions ++ [r] })
  | base (data : Aggregate) (b : Base) : Grows (.aggregate data) (.aggregate { data with bases := data.bases ++ [b] })
  | final (data : Aggregate) (isFinal : Bool) : Grows (.aggregate data) (.aggregate { data with isFinal := isFinal })
  | member (data : Enumeration) (m : EnumMember) :
      Grows (.enumeration data) (.enumeration { data with members := data.members ++ [m] })
  | underlying (data : Enumeration) (ty : TypeRef) :
      Grows (.enumeration data) (.enumeration { data with underlying := some ty })
  | key (data : Enumeration) (k : EnumKey) : Grows (.enumeration data) (.enumeration { data with key := some k })

inductive DeclNode.Grows : DeclNode → DeclNode → Prop where
  | varQualifiers (data : VarDecl) (quals : VarQualifiers) : Grows (.var data) (.var { data with quals := quals })
  | body (data : FuncDecl) (scope : ScopeRef) (absent : data.body = none) (fillable : data.lifecycle ≠ .forward)
      (plain : data.special = none) : Grows (.function data) (.function { data with body := some scope })
  | qualifiers (data : FuncDecl) (quals : FuncQualifiers) :
      Grows (.function data) (.function { data with quals := quals })
  | methodQualifiers (data : FuncDecl) (m : Membership) (quals : MethodQualifiers) (member : data.method = some m)
      (bodyless : quals.special.isSome → data.body = none) :
      Grows (.function data) (.function { data with method := some { m with quals := quals } })
  | defined (data : FuncDecl) (split : data.lifecycle = .split) (first : data.defined = false) :
      Grows (.function data) (.function { data with defined := true })
  | init (data : FuncDecl) (i : MemberInit) (constructs : data.kind = .constructor) :
      Grows (.function data) (.function { data with inits := data.inits ++ [i] })

inductive ExprNode.Grows : ExprNode → ExprNode → Prop where
  | association (control : ExprRef) (assocs : List Association) (assoc : Association) :
      Grows (.generic control assocs) (.generic control (assocs ++ [assoc]))

inductive StmtNode.Grows : StmtNode → StmtNode → Prop where
  | elseIf (data : IfStmt) (b : ElseIf) : Grows (.ifElse data) (.ifElse { data with elseIfs := data.elseIfs ++ [b] })
  | otherwise (data : IfStmt) (scope : ScopeRef) (absent : data.otherwise = none) :
      Grows (.ifElse data) (.ifElse { data with otherwise := some scope })
  | caseLabel (data : SwitchStmt) (s : StmtRef) :
      Grows (.switch data) (.switch { data with cases := data.cases ++ [s] })
  | handler (data : TryStmt) (h : Handler) :
      Grows (.tryCatch data) (.tryCatch { data with handlers := data.handlers ++ [h] })

inductive DirectiveNode.Grows : DirectiveNode → DirectiveNode → Prop where
  | elif (data : Conditional) (e : Elif) :
      Grows (.conditional data) (.conditional { data with elifs := data.elifs ++ [e] })
  | otherwise (data : Conditional) (scope : ScopeRef) (absent : data.otherwise = none) :
      Grows (.conditional data) (.conditional { data with otherwise := some scope })

inductive ScopeNode.Grows : ScopeNode → ScopeNode → Prop where
  | entry (n : ScopeNode) (e : Entry) : Grows n { n with entries := n.entries ++ [e] }

namespace Node

def features : (c : Category) → Node c → List Feature
  | .type, n => TypeNode.features n
  | .decl, n => DeclNode.features n
  | .expr, n => ExprNode.features n
  | .stmt, n => StmtNode.features n
  | .directive, n => DirectiveNode.features n
  | .scope, _ => []

def Initial : (c : Category) → Node c → Prop
  | .type, n => TypeNode.Initial n
  | .decl, n => DeclNode.Initial n
  | .expr, n => ExprNode.Initial n
  | .stmt, n => StmtNode.Initial n
  | .directive, n => DirectiveNode.Initial n
  | .scope, n => ScopeNode.entries n = []

def Grows : (c : Category) → Node c → Node c → Prop
  | .type, old, new => TypeNode.Grows old new
  | .decl, old, new => DeclNode.Grows old new
  | .expr, old, new => ExprNode.Grows old new
  | .stmt, old, new => StmtNode.Grows old new
  | .directive, old, new => DirectiveNode.Grows old new
  | .scope, old, new => ScopeNode.Grows old new

theorem growsAccepts {c : Category} {old new : Node c} (grows : Grows c old new) (s : Shape) :
    s.accepts c new = s.accepts c old := by
  cases c with
  | type => cases grows <;> cases s <;> rfl
  | scope => cases grows; rfl
  | _ =>
    cases grows <;> cases s with
    | role r => cases r <;> rfl
    | _ => rfl

theorem growsParent {c : Category} {old new : Node c} (grows : Grows c old new) :
    parent? c new = parent? c old := by
  cases c with
  | scope => cases grows; rfl
  | _ => rfl

end Node

end CSource
