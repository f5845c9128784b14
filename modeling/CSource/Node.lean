import CSource.Node.Decl
import CSource.Node.Directive
import CSource.Node.Expr
import CSource.Node.Scope
import CSource.Node.Stmt
import CSource.Node.Type

/-!
The node type of each category.
-/

namespace CSource

abbrev Node : Category → Type
  | .type => TypeNode
  | .decl => DeclNode
  | .expr => ExprNode
  | .stmt => StmtNode
  | .directive => DirectiveNode
  | .scope => ScopeNode

end CSource
