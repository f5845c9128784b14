import CSource.Proofs.Brackets

/-!
Leaves: the texts of clients, as far as they are written where a node is written. All else in the text of a node is
punctuation and keywords, which keep the brackets level, and the texts of other nodes.
-/

namespace CSource

open Render

def segmentsOf : Except Misuse QualName → List String
  | .ok name => name.segments
  | .error _ => []

def TypeNode.leaves (a : Arena) : TypeNode → List String
  | raw spelling => [spelling]
  | named d | instantiation d _ => segmentsOf (a.declName d)
  | synonym name _ => name.segments
  | aggregate data => data.name.segments
  | enumeration data => data.name.segments ++ data.members.map (·.name)
  | void | pointer _ | reference _ | array _ _ | function _ _ _ | pack _ | parameter _ => []

def VarDecl.leaves (v : VarDecl) : List String := if v.name.isBlank then [] else v.name.segments

namespace FuncDecl

/-- A signature outside its aggregate has the name of that before it, and only the last segment of its own. -/
def signatureLeaves (a : Arena) (f : FuncDecl) (style : SignatureStyle) : List String :=
  match style, f.method with
  | .forward, _ => [f.name.last]
  | .define, some m => segmentsOf (a.tagName m.parent) ++ [f.name.last]
  | _, _ => f.name.segments

def bodyLeaves (f : FuncDecl) : List String :=
  match f.special, f.body with
  | none, some _ => f.inits.flatMap (·.member.segments)
  | _, _ => []

end FuncDecl

def DeclNode.leaves (a : Arena) : DeclNode → List String
  | raw text => [text]
  | var data => data.leaves
  | function data => data.signatureLeaves a (styleOf data.lifecycle) ++ data.bodyLeaves
  | splitForward func =>
    match a.functionAt func with
    | .ok data => data.signatureLeaves a .forward
    | .error _ => []
  | aggregate ty true | enumeration ty true | typeDef ty | usingType ty => segmentsOf (a.tagName ty)
  | aggregate _ false | enumeration _ false | template _ _ => []

def Capture.leaves : Capture → List String
  | byValue name | byReference name => [name]
  | allByValue | allByReference | self => []

def ExprNode.leaves (a : Arena) : ExprNode → List String
  | raw text => [text]
  | var d | instantiation d _ => segmentsOf (a.declName d)
  | unary op _ _ | binary op _ _ | fold op _ _ => [op]
  | designated fields => fields.map (·.field)
  | qualName name => name.segments
  | lambda data => data.captures.flatMap (·.leaves)
  | userLiteral _ suffix => [suffix]
  | typeName _ | subscript _ _ | call _ _ | ternary _ _ _ | cast _ _ | paren _ | initList _ | generic _ _ | new _
  | delete _ _ | packExpansion _ => []

def StmtNode.leaves : StmtNode → List String
  | raw text => [text]
  | label name _ | goto name => [name]
  | usingNamespace name => name.segments
  | empty | decl _ | expr _ | ifElse _ | whileLoop _ _ | forLoop _ _ _ _ | forRange _ _ _ | doWhile _ _ | block _
  | returnValue _ | breakLoop | continueLoop | switch _ | caseLabel _ | throwValue _ | tryCatch _ => []

def Condition.leaves : Condition → List String
  | holds _ => []
  | isDefined name | isUndefined name => [name]

def DirectiveNode.leaves : DirectiveNode → List String
  | raw text | pragma text => [text]
  | includeFile path _ => [path]
  | define name value => name :: value.toList
  | defineFunction name ps _ => name :: ps
  | undef name => [name]
  | conditional data => data.head.leaves
  | namespaceBlock name _ | usingNamespace name | usingName name => name.segments

def Node.leaves (a : Arena) : (c : Category) → Node c → List String
  | .type, n => TypeNode.leaves a n
  | .decl, n => DeclNode.leaves a n
  | .expr, n => ExprNode.leaves a n
  | .stmt, n => StmtNode.leaves n
  | .directive, n => DirectiveNode.leaves n
  | .scope, _ => []

namespace Arena

def remarks (a : Arena) (r : NodeRef) : List String :=
  match a.commentsOf r with
  | some c => c.before.toList ++ c.after.toList
  | none => []

def leaves (a : Arena) (r : NodeRef) : List String :=
  (match a.node r.handle with
    | .ok n => Node.leaves a r.category n
    | .error _ => []) ++ a.remarks r

def Leveled (a : Arena) (r : NodeRef) : Prop := ∀ k, a.Shows r k → ∀ leaf ∈ a.leaves k, Balanced leaf

end Arena

end CSource
