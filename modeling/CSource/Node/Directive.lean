import CSource.Node.Scope
import CSource.QualName

/-!
Directive nodes: preprocessor lines, conditionals, and the declarations that stand only at namespace level.
-/

namespace CSource

inductive Condition where
  | holds (cond : ExprRef)
  | isDefined (name : String)
  | isUndefined (name : String)
  deriving DecidableEq, Repr

structure Elif where
  cond : ExprRef
  body : ScopeRef
  deriving DecidableEq, Repr

structure Conditional where
  head : Condition
  body : ScopeRef
  elifs : List Elif
  otherwise : Option ScopeRef
  branch : BranchKind
  deriving DecidableEq, Repr

inductive DirectiveNode where
  | raw (text : String)
  | includeFile (path : String) (system : Bool)
  | define (name : String) (value : Option String)
  | defineFunction (name : String) (params : List String) (body : ScopeRef)
  | undef (name : String)
  | pragma (text : String)
  | conditional (data : Conditional)
  | namespaceBlock (name : QualName) (body : ScopeRef)
  | usingNamespace (name : QualName)
  | usingName (name : QualName)
  deriving DecidableEq, Repr

def DirectiveNode.kindName : DirectiveNode → String
  | raw _ => "Raw"
  | includeFile _ _ => "Include"
  | define _ _ => "Define"
  | defineFunction _ _ _ => "DefineFunc"
  | undef _ => "Undef"
  | pragma _ => "Pragma"
  | conditional _ => "Conditional"
  | namespaceBlock _ _ => "Namespace"
  | usingNamespace _ => "UsingNamespace"
  | usingName _ => "Using"

end CSource
