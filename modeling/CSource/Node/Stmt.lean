import CSource.Handle
import CSource.QualName

/-!
Statement nodes. Branches, cases and handlers are appended after the statement is made; each has a scope of its own.
-/

namespace CSource

structure ElseIf where
  init : Option DeclRef
  cond : ExprRef
  body : ScopeRef
  deriving DecidableEq, Repr

structure IfStmt where
  init : Option DeclRef
  cond : ExprRef
  isConstexpr : Bool
  body : ScopeRef
  elseIfs : List ElseIf
  otherwise : Option ScopeRef
  deriving DecidableEq, Repr

structure SwitchStmt where
  init : Option DeclRef
  cond : ExprRef
  cases : List StmtRef
  deriving DecidableEq, Repr

structure CaseLabel where
  value : Option ExprRef
  body : ScopeRef
  fallthrough : Bool
  deriving DecidableEq, Repr

structure Handler where
  decl : Option DeclRef
  body : ScopeRef
  deriving DecidableEq, Repr

structure TryStmt where
  body : ScopeRef
  handlers : List Handler
  deriving DecidableEq, Repr

inductive StmtNode where
  | raw (text : String)
  | empty
  | decl (d : DeclRef)
  | expr (e : ExprRef)
  | ifElse (data : IfStmt)
  | whileLoop (cond : ExprRef) (body : ScopeRef)
  | forLoop (init : Option StmtRef) (cond step : Option ExprRef) (body : ScopeRef)
  | forRange (decl : DeclRef) (range : ExprRef) (body : ScopeRef)
  | doWhile (cond : ExprRef) (body : ScopeRef)
  | block (body : ScopeRef)
  | returnValue (value : Option ExprRef)
  | breakLoop
  | continueLoop
  | label (name : String) (inner : Option StmtRef)
  | goto (label : String)
  | switch (data : SwitchStmt)
  | caseLabel (data : CaseLabel)
  | throwValue (value : Option ExprRef)
  | tryCatch (data : TryStmt)
  | usingNamespace (name : QualName)
  deriving DecidableEq, Repr

def StmtNode.kindName : StmtNode → String
  | raw _ => "Raw"
  | empty => "Empty"
  | decl _ => "Decl"
  | expr _ => "Expr"
  | ifElse _ => "If"
  | whileLoop _ _ => "While"
  | forLoop _ _ _ _ => "For"
  | forRange _ _ _ => "ForRange"
  | doWhile _ _ => "DoWhile"
  | block _ => "Block"
  | returnValue _ => "Return"
  | breakLoop => "Break"
  | continueLoop => "Continue"
  | label _ _ => "Label"
  | goto _ => "Goto"
  | switch _ => "Switch"
  | caseLabel _ => "Case"
  | throwValue _ => "Throw"
  | tryCatch _ => "Try"
  | usingNamespace _ => "UsingNamespace"

end CSource
