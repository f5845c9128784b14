import CSource.Build.Decls
import CSource.Literal

/-!
Calls that make expressions.
-/

namespace CSource

inductive UnaryOperator where
  | addressOf
  | dereference
  | not
  deriving DecidableEq, Repr

def UnaryOperator.spelling : UnaryOperator → String
  | addressOf => "&"
  | dereference => "*"
  | not => "!"

inductive Comparison where
  | eq
  | lt
  | gt
  | le
  | ge
  deriving DecidableEq, Repr

def Comparison.spelling : Comparison → String
  | eq => "=="
  | lt => "<"
  | gt => ">"
  | le => "<="
  | ge => ">="

inductive Selection where
  | dot
  | arrow
  deriving DecidableEq, Repr

def Selection.spelling : Selection → String
  | dot => "."
  | arrow => "->"

namespace Build

def rawExpr (text : String) : Build ExprRef := alloc .expr (.raw text)

def literalExpr (l : Literal) : Build ExprRef := do
  rawExpr (l.text (← get).dialect)

def varExpr (decl : DeclRef) : Build ExprRef := do
  own decl
  alloc .expr (.var decl)

def typeExpr (ty : TypeRef) : Build ExprRef := do
  own ty
  alloc .expr (.typeName ty)

def subscriptExpr (base index : ExprRef) : Build ExprRef := do
  own base
  own index
  alloc .expr (.subscript base index)

def callExpr (callee : ExprRef) (args : List ExprRef) : Build ExprRef := do
  own callee
  ownEach args
  alloc .expr (.call callee args)

def unaryExpr (op : String) (operand : ExprRef) : Build ExprRef := do
  own operand
  alloc .expr (.unary op operand true)

def postfixExpr (operand : ExprRef) (op : String) : Build ExprRef := do
  own operand
  alloc .expr (.unary op operand false)

def binaryExpr (lhs : ExprRef) (op : String) (rhs : ExprRef) : Build ExprRef := do
  own lhs
  own rhs
  alloc .expr (.binary op lhs rhs)

def ternaryExpr (cond yes no : ExprRef) : Build ExprRef := do
  own cond
  own yes
  own no
  alloc .expr (.ternary cond yes no)

def castExpr (ty : TypeRef) (operand : ExprRef) : Build ExprRef := do
  own ty
  own operand
  alloc .expr (.cast ty operand)

def parenExpr (inner : ExprRef) : Build ExprRef := do
  own inner
  alloc .expr (.paren inner)

def initListExpr (items : List ExprRef) : Build ExprRef := do
  ownEach items
  alloc .expr (.initList items)

def designatedExpr (fields : List Designator) : Build ExprRef := do
  ownEach (fields.map (·.value))
  alloc .expr (.designated fields)

def genericExpr (control : ExprRef) : Build (Typed .generic) := do
  require .genericSelection
  own control
  pure ⟨← alloc .expr (.generic control [])⟩

def addAssociation (g : Typed .generic) (ty : Option TypeRef) (value : ExprRef) : Build Unit := do
  ownOption ty
  own value
  match ← read (·.node g.handle) with
  | .generic control assocs => update g.handle (.generic control (assocs ++ [⟨ty, value⟩]))
  | other => throw (.unexpected .genericSelection other.kindName)

def qualNameExpr (name : QualName) : Build ExprRef := do
  require .qualifiedName
  alloc .expr (.qualName name)

def lambdaExpr (captures : List Capture) (params : List DeclRef) (variadic : Bool) (ret : Option TypeRef) :
    Build (Typed .lambda) := do
  require .lambda
  ownEach params
  ownOption ret
  let body ← newBody
  pure ⟨← alloc .expr (.lambda ⟨captures, params, variadic, ret, body⟩)⟩

def newExpr (data : NewExpr) : Build ExprRef := do
  require .newExpression
  own data.ty
  ownEach data.args
  ownOption data.arraySize
  ownOption data.placement
  alloc .expr (.new data)

def deleteExpr (operand : ExprRef) (array : Bool) : Build ExprRef := do
  require .deleteExpression
  own operand
  alloc .expr (.delete operand array)

def userLiteralExpr (operand : ExprRef) (suffix : String) : Build ExprRef := do
  require .userLiteral
  own operand
  alloc .expr (.userLiteral operand suffix)

def instantiationExpr (template : DeclRef) (args : List TemplateArg) : Build ExprRef := do
  require .templateInstantiation
  own template
  ownArgs args
  alloc .expr (.instantiation template args)

def rawInstantiationExpr (name : QualName) (args : List TemplateArg) : Build ExprRef := do
  let template ← rawTemplateDecl name
  instantiationExpr template args

def packExpansionExpr (pack : ExprRef) : Build ExprRef := do
  require .packExpansion
  own pack
  alloc .expr (.packExpansion pack)

def ownFold : Fold → Build Unit
  | .unaryLeft | .unaryRight => pure ()
  | .binaryLeft start | .binaryRight start => own start

def foldExpr (op : String) (pack : ExprRef) (kind : Fold) : Build ExprRef := do
  require .foldExpression
  own pack
  ownFold kind
  alloc .expr (.fold op pack kind)

def selectExpr (lhs : ExprRef) (selection : Selection) (member : String) : Build ExprRef := do
  let rhs ← rawExpr member
  binaryExpr lhs selection.spelling rhs

def sizeofExpr (ty : TypeRef) : Build ExprRef := do
  let callee ← rawExpr "sizeof"
  let operand ← typeExpr ty
  callExpr callee [operand]

def vaArgExpr (list : ExprRef) (ty : TypeRef) : Build ExprRef := do
  let callee ← rawExpr "va_arg"
  let operand ← typeExpr ty
  callExpr callee [list, operand]

end Build

end CSource
