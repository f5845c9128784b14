import CSource.Arena
import CSource.Handle.Issued

/-!
Answers: what a call or a query gives back.
-/

namespace CSource

inductive Answer where
  | nothing
  | handle (h : Issued)
  | text (s : String)
  | texts (ss : List String)
  | flag (b : Bool)
  | name (n : QualName)
  | aggregateKind (k : AggregateKind)
  | lifecycle (l : Lifecycle)
  | varQualifiers (q : VarQualifiers)
  | funcQualifiers (q : FuncQualifiers)
  | methodQualifiers (q : Option MethodQualifiers)
  | node (c : Category) (n : Node c)
  | scopeKind (k : ScopeKind)
  | entries (es : List Entry)
  | comments (c : Option Comments)
  | stats (s : Stats)
  | dialect (d : Dialect)

namespace Answer

def type (h : TypeRef) : Answer := .handle (.node .type h)
def decl (h : DeclRef) : Answer := .handle (.node .decl h)
def expr (h : ExprRef) : Answer := .handle (.node .expr h)
def stmt (h : StmtRef) : Answer := .handle (.node .stmt h)
def directive (h : DirectiveRef) : Answer := .handle (.node .directive h)
def typed {r : Role} (h : Typed r) : Answer := .handle (.typed r h)
def place (p : Place) : Answer := .handle (.place p)
def aggregate (c : ClassRef) : Answer := .handle (.aggregate c)
def enumeration (e : EnumRef) : Answer := .handle (.enumeration e)
def templated (template : DeclRef) (inner : Issued) : Answer := .handle (.templated template inner)

end Answer

end CSource
