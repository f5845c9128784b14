import CSource.Build.Exprs

/-!
Short form: operators over plain values. Each operator application is closed in parentheses, and so is every
operand that is an expression already, so nesting never changes what an operator applies to.
-/

namespace CSource

inductive Operand where
  | literal (l : Literal)
  | ident (name : String)
  | qualName (name : QualName)
  | expr (e : ExprRef)
  | var (decl : DeclRef)
  deriving DecidableEq, Repr

namespace Build

def operand : Operand → Build ExprRef
  | .literal l => literalExpr l
  | .ident name => rawExpr name
  | .qualName name => qualNameExpr name
  | .expr e => parenExpr e
  | .var decl => varExpr decl

def shortUnary (op : String) (x : Operand) : Build ExprRef := do
  let x ← operand x
  parenExpr (← unaryExpr op x)

def shortPostfix (x : Operand) (op : String) : Build ExprRef := do
  let x ← operand x
  parenExpr (← postfixExpr x op)

def shortBinary (lhs : Operand) (op : String) (rhs : Operand) : Build ExprRef := do
  let lhs ← operand lhs
  let rhs ← operand rhs
  parenExpr (← binaryExpr lhs op rhs)

def shortCall (callee : Operand) (args : List Operand) : Build ExprRef := do
  let callee ← operand callee
  let args ← args.mapM operand
  parenExpr (← callExpr callee args)

def subscripts : ExprRef → List Operand → Build ExprRef
  | base, [] => pure base
  | base, index :: rest => do
    let index ← operand index
    subscripts (← subscriptExpr base index) rest

def shortIndex (base : Operand) (indices : List Operand) : Build ExprRef := do
  let base ← operand base
  parenExpr (← subscripts base indices)

end Build

end CSource
