import CSource.Node.Type

/-!
Expression nodes. Literals are raw text; a generic selection is the only expression that grows.
-/

namespace CSource

inductive Capture where
  | byValue (name : String)
  | byReference (name : String)
  | allByValue
  | allByReference
  | self
  deriving DecidableEq, Repr

def Capture.text : Capture → String
  | byValue name => name
  | byReference name => "&" ++ name
  | allByValue => "="
  | allByReference => "&"
  | self => "this"

structure LambdaExpr where
  captures : List Capture
  params : List DeclRef
  variadic : Bool
  ret : Option TypeRef
  body : ScopeRef
  deriving DecidableEq, Repr

structure NewExpr where
  ty : TypeRef
  args : List ExprRef
  braced : Bool
  arraySize : Option ExprRef
  placement : Option ExprRef
  deriving DecidableEq, Repr

/-- On which side of a pack the operator is folded, and from which start. -/
inductive Fold where
  | unaryLeft
  | unaryRight
  | binaryLeft (start : ExprRef)
  | binaryRight (start : ExprRef)
  deriving DecidableEq, Repr

structure Association where
  ty : Option TypeRef
  value : ExprRef
  deriving DecidableEq, Repr

structure Designator where
  field : String
  value : ExprRef
  deriving DecidableEq, Repr

inductive ExprNode where
  | raw (text : String)
  | var (decl : DeclRef)
  | typeName (ty : TypeRef)
  | subscript (base index : ExprRef)
  | call (callee : ExprRef) (args : List ExprRef)
  | unary (op : String) (operand : ExprRef) (leading : Bool)
  | binary (op : String) (lhs rhs : ExprRef)
  | ternary (cond yes no : ExprRef)
  | cast (ty : TypeRef) (operand : ExprRef)
  | paren (inner : ExprRef)
  | initList (items : List ExprRef)
  | designated (fields : List Designator)
  | generic (control : ExprRef) (assocs : List Association)
  | qualName (name : QualName)
  | lambda (data : LambdaExpr)
  | new (data : NewExpr)
  | delete (operand : ExprRef) (array : Bool)
  | userLiteral (operand : ExprRef) (suffix : String)
  | instantiation (template : DeclRef) (args : List TemplateArg)
  | packExpansion (pack : ExprRef)
  | fold (op : String) (pack : ExprRef) (kind : Fold)
  deriving DecidableEq, Repr

def ExprNode.kindName : ExprNode → String
  | raw _ => "Raw"
  | var _ => "Var"
  | typeName _ => "Type"
  | subscript _ _ => "Subscript"
  | call _ _ => "Call"
  | unary _ _ _ => "Unary"
  | binary _ _ _ => "Binary"
  | ternary _ _ _ => "Ternary"
  | cast _ _ => "Cast"
  | paren _ => "Paren"
  | initList _ => "InitList"
  | designated _ => "DesignatedInit"
  | generic _ _ => "Generic"
  | qualName _ => "QualName"
  | lambda _ => "Lambda"
  | new _ => "New"
  | delete _ _ => "Delete"
  | userLiteral _ _ => "UserLiteral"
  | instantiation _ _ => "Instantiation"
  | packExpansion _ => "PackExpansion"
  | fold _ _ _ => "Fold"

end CSource
