import CSource.Session.Call
import CSource.Session.Query

/-!
Slots: a reference together with the shape of the node that its holder relies on. The slots of a node are all
references stored in it, those of a handle are what the handle promises. A slot says nothing about the arena;
`Arena.Has` is the statement that the arena keeps the promise.
-/

namespace CSource

inductive Shape where
  | any
  | synonym
  | aggregate
  | enumeration
  | splitFunction
  | clause
  | expression
  | role (r : Role)
  | place (k : PlaceKind)
  deriving DecidableEq, Repr

structure Slot where
  ref : NodeRef
  shape : Shape
  deriving DecidableEq, Repr

def Handle.as {c : Category} (h : Handle c) (shape : Shape) : Slot := ⟨h.ref, shape⟩

def Handle.plain {c : Category} (h : Handle c) : Slot := h.as .any

def TemplateArg.slot (arg : TemplateArg) : Slot := ⟨arg.ref, .any⟩

def Place.slot (p : Place) : Slot := p.scope.as (.place p.kind)

def Entry.slot (e : Entry) : Slot := ⟨e.ref, .any⟩

def plainSlots {c : Category} (hs : List (Handle c)) : List Slot := hs.map (·.plain)

def optionSlots {c : Category} (h : Option (Handle c)) : List Slot := h.toList.map (·.plain)

namespace Shape

def acceptsType : Shape → TypeNode → Bool
  | any, _ => true
  | synonym, .synonym _ _ => true
  | aggregate, .aggregate _ => true
  | enumeration, .enumeration _ => true
  | _, _ => false

def acceptsDecl : Shape → DeclNode → Bool
  | any, _ => true
  | splitFunction, .function data => data.lifecycle = .split
  | role .function, .function _ => true
  | _, _ => false

def acceptsExpr : Shape → ExprNode → Bool
  | any, _ => true
  | role .lambda, .lambda _ => true
  | role .generic, .generic _ _ => true
  | _, _ => false

def acceptsStmt : Shape → StmtNode → Bool
  | any, _ => true
  | clause, .decl _ => true
  | clause, .expr _ => true
  | expression, .expr _ => true
  | role .ifElse, .ifElse _ => true
  | role .switch, .switch _ => true
  | role .caseLabel, .caseLabel _ => true
  | role .loop, .whileLoop _ _ => true
  | role .loop, .forLoop _ _ _ _ => true
  | role .loop, .forRange _ _ _ => true
  | role .loop, .doWhile _ _ => true
  | role .tryCatch, .tryCatch _ => true
  | _, _ => false

def acceptsDirective : Shape → DirectiveNode → Bool
  | any, _ => true
  | role (.conditional branch), .conditional data => data.branch = branch
  | role .functionMacro, .defineFunction _ _ _ => true
  | role .namespaceBlock, .namespaceBlock _ _ => true
  | _, _ => false

def acceptsScope : Shape → ScopeKind → Bool
  | any, _ => true
  | place .topLevel, .topLevel => true
  | place .function, .function => true
  | place .macroBody, .macroBody => true
  | place .member, .members _ _ => true
  | _, _ => false

def accepts (s : Shape) : (c : Category) → Node c → Bool
  | .type, n => s.acceptsType n
  | .decl, n => s.acceptsDecl n
  | .expr, n => s.acceptsExpr n
  | .stmt, n => s.acceptsStmt n
  | .directive, n => s.acceptsDirective n
  | .scope, n => s.acceptsScope n.kind

@[simp] theorem anyAccepts {c : Category} (n : Node c) : accepts .any c n = true := by
  cases c with
  | scope => cases h : (n : ScopeNode).kind <;> rfl
  | _ => rfl

end Shape

def VarShape.slots : VarShape → List Slot
  | .plain => []
  | .array sizes => plainSlots sizes
  | .construct args _ => plainSlots args

def TypeNode.slots : TypeNode → List Slot
  | raw _ | void | parameter _ => []
  | pointer ty | reference ty | pack ty | synonym _ ty => [ty.plain]
  | array element sizes => element.plain :: plainSlots sizes
  | function ret params _ => ret.plain :: plainSlots params
  | named decl => [decl.plain]
  | aggregate data => data.bases.map (·.ty.plain) ++ data.regions.map (·.scope.as (.place .member))
  | enumeration data => optionSlots data.underlying ++ data.members.flatMap (optionSlots ·.value)
  | instantiation template args => template.plain :: args.map (·.slot)

def DeclNode.slots : DeclNode → List Slot
  | raw _ => []
  | var data => data.ty.plain :: optionSlots data.init ++ data.shape.slots
  | function data =>
    optionSlots data.ret ++ plainSlots data.params ++ data.body.toList.map (·.as (.place .function)) ++
      data.method.toList.map (·.parent.as .aggregate) ++ data.inits.flatMap (plainSlots ·.args)
  | splitForward func => [func.as .splitFunction]
  | aggregate ty _ => [ty.as .aggregate]
  | enumeration ty _ => [ty.as .enumeration]
  | typeDef ty | usingType ty => [ty.as .synonym]
  | template params inner => inner.plain :: plainSlots params

def Fold.slots : Fold → List Slot
  | unaryLeft | unaryRight => []
  | binaryLeft start | binaryRight start => [start.plain]

def Operand.slots : Operand → List Slot
  | .literal _ | .ident _ | .qualName _ => []
  | .expr x => [x.plain]
  | .var decl => [decl.plain]

def NewExpr.slots (data : NewExpr) : List Slot :=
  data.ty.plain :: plainSlots data.args ++ optionSlots data.arraySize ++ optionSlots data.placement

def ExprNode.slots : ExprNode → List Slot
  | raw _ | qualName _ => []
  | var decl => [decl.plain]
  | typeName ty => [ty.plain]
  | subscript base index => [base.plain, index.plain]
  | call callee args => callee.plain :: plainSlots args
  | unary _ x _ | paren x | delete x _ | userLiteral x _ | packExpansion x => [x.plain]
  | binary _ lhs rhs => [lhs.plain, rhs.plain]
  | ternary cond yes no => [cond.plain, yes.plain, no.plain]
  | cast ty x => [ty.plain, x.plain]
  | initList items => plainSlots items
  | designated fields => plainSlots (fields.map (·.value))
  | generic control assocs =>
    control.plain :: assocs.flatMap fun assoc => optionSlots assoc.ty ++ [assoc.value.plain]
  | lambda data => data.body.as (.place .function) :: plainSlots data.params ++ optionSlots data.ret
  | new data => data.slots
  | instantiation template args => template.plain :: args.map (·.slot)
  | fold _ pack kind => pack.plain :: kind.slots

def StmtNode.slots : StmtNode → List Slot
  | raw _ | empty | breakLoop | continueLoop | goto _ | usingNamespace _ => []
  | decl d => [d.plain]
  | expr e => [e.plain]
  | ifElse data =>
    data.body.as (.place .function) :: data.cond.plain :: optionSlots data.init ++
      data.elseIfs.flatMap (fun b => b.body.as (.place .function) :: b.cond.plain :: optionSlots b.init) ++
      data.otherwise.toList.map (·.as (.place .function))
  | whileLoop cond body | doWhile cond body => [body.as (.place .function), cond.plain]
  | forLoop init cond step body =>
    body.as (.place .function) :: init.toList.map (·.as .clause) ++ optionSlots cond ++ optionSlots step
  | forRange d range body => [body.as (.place .function), d.plain, range.plain]
  | block body => [body.as (.place .function)]
  | returnValue value | throwValue value => optionSlots value
  | label _ inner => inner.toList.map (·.as .expression)
  | switch data => data.cond.plain :: optionSlots data.init ++ data.cases.map (·.as (.role .caseLabel))
  | caseLabel data => data.body.as (.place .function) :: optionSlots data.value
  | tryCatch data =>
    data.body.as (.place .function) ::
      data.handlers.flatMap fun h => h.body.as (.place .function) :: optionSlots h.decl

def Condition.slots : Condition → List Slot
  | holds cond => [cond.plain]
  | isDefined _ | isUndefined _ => []

def Conditional.slots (data : Conditional) : List Slot :=
  data.body.as (.place data.branch.placeKind) :: data.head.slots ++
    data.elifs.flatMap (fun e => [e.cond.plain, e.body.as (.place data.branch.placeKind)]) ++
    data.otherwise.toList.map (·.as (.place data.branch.placeKind))

def DirectiveNode.slots : DirectiveNode → List Slot
  | defineFunction _ _ body => [body.as (.place .macroBody)]
  | conditional data => data.slots
  | namespaceBlock _ body => [body.as (.place .topLevel)]
  | _ => []

def ScopeKind.parent? : ScopeKind → Option TypeRef
  | members parent _ => some parent
  | topLevel | function | macroBody => none

def ScopeKind.slots (k : ScopeKind) : List Slot := k.parent?.toList.map (·.as .aggregate)

def ScopeNode.slots (n : ScopeNode) : List Slot := n.kind.slots ++ n.entries.map (·.slot)

namespace Node

def slots : (c : Category) → Node c → List Slot
  | .type, n => TypeNode.slots n
  | .decl, n => DeclNode.slots n
  | .expr, n => ExprNode.slots n
  | .stmt, n => StmtNode.slots n
  | .directive, n => DirectiveNode.slots n
  | .scope, n => ScopeNode.slots n

def parent? : (c : Category) → Node c → Option TypeRef
  | .scope, n => ScopeKind.parent? (ScopeNode.kind n)
  | _, _ => none

end Node

/-- What a handle promises: the nodes it names, each with its shape. -/
def Issued.slots : Issued → List Slot
  | node _ h => [h.plain]
  | typed r h => [h.handle.as (.role r)]
  | place p => [p.slot]
  | aggregate c => [c.ty.as .aggregate, c.decl.plain]
  | enumeration e => [e.ty.as .enumeration, e.decl.plain]
  | templated template inner => template.plain :: inner.slots

end CSource
