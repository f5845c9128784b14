import CSource.Session.Answer

/-!
Outlines: an answer as a tree of texts, flags, numbers and handles, for whoever prints or compares answers without
knowing their types. A node is the list of the name of its shape and its fields; sets of flags and functions, whose
fields are many, are records.
-/

namespace CSource

inductive Outline where
  | absent
  | text (s : String)
  | flag (b : Bool)
  | number (n : Nat)
  | handle (i : Issued)
  | list (items : List Outline)
  | record (fields : List (String × Outline))

namespace Outline

def node {c : Category} (h : Handle c) : Outline := .handle (.node c h)

def nodes {c : Category} (hs : List (Handle c)) : Outline := .list (hs.map node)

def optional {α : Type} (f : α → Outline) : Option α → Outline
  | some x => f x
  | none => .absent

def texts (ss : List String) : Outline := .list (ss.map .text)

def name (n : QualName) : Outline := texts n.segments

def scopeAs (kind : PlaceKind) (s : ScopeRef) : Outline := .handle (.place ⟨kind, s⟩)

def body : ScopeRef → Outline := scopeAs .function

def arg : TemplateArg → Outline
  | .type ty => node ty
  | .expr e => node e

def flags (fs : List (String × Bool)) : Outline := .record (fs.map fun (key, b) => (key, .flag b))

def varQualifiers (q : VarQualifiers) : Outline :=
  flags [("const", q.isConst), ("extern", q.isExternal), ("static", q.isStatic), ("volatile", q.isVolatile),
    ("restrict", q.isRestrict), ("inline", q.isInline)]

def funcQualifiers (q : FuncQualifiers) : Outline :=
  flags [("extern", q.isExternal), ("static", q.isStatic), ("constexpr", q.isConstexpr), ("inline", q.isInline)]

def special : MethodSpecial → Outline
  | .abstract => .text "abstract"
  | .default => .text "default"
  | .delete => .text "delete"

def methodQualifiers (q : MethodQualifiers) : Outline :=
  .record [("virtual", .flag q.isVirtual), ("explicit", .flag q.isExplicit), ("const", .flag q.isConst),
    ("override", .flag q.isOverride), ("final", .flag q.isFinal), ("special", optional special q.special)]

def lifecycle : Lifecycle → Outline
  | .forward => .text "forward"
  | .inPlace => .text "inline"
  | .split => .text "split"

def funcKind : FuncKind → Outline
  | .free => .text "free"
  | .method => .text "method"
  | .constructor => .text "constructor"
  | .destructor => .text "destructor"

def typeFields : TypeNode → List Outline
  | .raw spelling => [.text spelling]
  | .void => []
  | .pointer ty | .reference ty | .pack ty => [node ty]
  | .array ty sizes => [node ty, nodes sizes]
  | .function ret params variadic => [node ret, nodes params, .flag variadic]
  | .named d => [node d]
  | .synonym n ty => [name n, node ty]
  | .aggregate d =>
    [.text d.kind.keyword, name d.name, .flag d.isFinal,
      .list (d.bases.map fun b => .list [.text b.access.keyword, node b.ty]),
      .list (d.regions.map fun r => .list [optional (.text ·.keyword) r.access, scopeAs .member r.scope])]
  | .enumeration d =>
    [name d.name, optional (.text ·.keyword) d.key, optional node d.underlying,
      .list (d.members.map fun m => .list [.text m.name, optional node m.value])]
  | .instantiation d args => [node d, .list (args.map arg)]
  | .parameter k => [.text k.keyword]

def shape : VarShape → Outline
  | .plain => .list [.text "Plain"]
  | .array sizes => .list [.text "Array", nodes sizes]
  | .construct args braced => .list [.text "Construct", nodes args, .flag braced]

def function (d : FuncDecl) : Outline :=
  .record [("name", name d.name), ("ret", optional node d.ret), ("params", nodes d.params),
    ("variadic", .flag d.variadic), ("body", optional body d.body), ("lifecycle", lifecycle d.lifecycle),
    ("kind", funcKind d.kind), ("quals", funcQualifiers d.quals),
    ("method", optional (fun m => .list [node m.parent, methodQualifiers m.quals]) d.method),
    ("inits", .list (d.inits.map fun i => .list [name i.member, nodes i.args])), ("defined", .flag d.defined)]

def declFields : DeclNode → List Outline
  | .raw s => [.text s]
  | .var d => [name d.name, node d.ty, optional node d.init, shape d.shape, varQualifiers d.quals]
  | .function d => [function d]
  | .splitForward d => [node d]
  | .aggregate ty forward | .enumeration ty forward => [node ty, .flag forward]
  | .typeDef ty | .usingType ty => [node ty]
  | .template params inner => [nodes params, node inner]

def capture : Capture → Outline
  | .byValue n => texts ["value", n]
  | .byReference n => texts ["ref", n]
  | .allByValue => texts ["all_value"]
  | .allByReference => texts ["all_ref"]
  | .self => texts ["this"]

def fold : Fold → Outline
  | .unaryLeft => texts ["unary_left"]
  | .unaryRight => texts ["unary_right"]
  | .binaryLeft e => .list [.text "binary_left", node e]
  | .binaryRight e => .list [.text "binary_right", node e]

def exprFields : ExprNode → List Outline
  | .raw s => [.text s]
  | .var d => [node d]
  | .typeName ty => [node ty]
  | .subscript base index => [node base, node index]
  | .call callee args => [node callee, nodes args]
  | .unary op x leading => [.text op, node x, .flag leading]
  | .binary op lhs rhs => [.text op, node lhs, node rhs]
  | .ternary cond yes no => [node cond, node yes, node no]
  | .cast ty x => [node ty, node x]
  | .paren x | .packExpansion x => [node x]
  | .initList items => [nodes items]
  | .designated fields => [.list (fields.map fun d => .list [.text d.field, node d.value])]
  | .generic control assocs =>
    [node control, .list (assocs.map fun c => .list [optional node c.ty, node c.value])]
  | .qualName n => [name n]
  | .lambda d => [.list (d.captures.map capture), nodes d.params, .flag d.variadic, optional node d.ret, body d.body]
  | .new d => [node d.ty, nodes d.args, .flag d.braced, optional node d.arraySize, optional node d.placement]
  | .delete x array => [node x, .flag array]
  | .userLiteral x suffix => [node x, .text suffix]
  | .instantiation d args => [node d, .list (args.map arg)]
  | .fold op pack kind => [.text op, node pack, fold kind]

def stmtFields : StmtNode → List Outline
  | .raw s | .goto s => [.text s]
  | .empty | .breakLoop | .continueLoop => []
  | .decl d => [node d]
  | .expr e => [node e]
  | .ifElse d =>
    [optional node d.init, node d.cond, .flag d.isConstexpr, body d.body,
      .list (d.elseIfs.map fun b => .list [optional node b.init, node b.cond, body b.body]), optional body d.otherwise]
  | .whileLoop cond b | .doWhile cond b => [node cond, body b]
  | .forLoop init cond step b => [optional node init, optional node cond, optional node step, body b]
  | .forRange d range b => [node d, node range, body b]
  | .block b => [body b]
  | .returnValue v | .throwValue v => [optional node v]
  | .label n inner => [.text n, optional node inner]
  | .switch d => [optional node d.init, node d.cond, nodes d.cases]
  | .caseLabel d => [optional node d.value, body d.body, .flag d.fallthrough]
  | .tryCatch d => [body d.body, .list (d.handlers.map fun h => .list [optional node h.decl, body h.body])]
  | .usingNamespace n => [name n]

def condition : Condition → Outline
  | .holds e => .list [.text "If", node e]
  | .isDefined n => texts ["Ifdef", n]
  | .isUndefined n => texts ["Ifndef", n]

def directiveFields : DirectiveNode → List Outline
  | .raw s | .undef s | .pragma s => [.text s]
  | .includeFile path system => [.text path, .flag system]
  | .define n value => [.text n, optional .text value]
  | .defineFunction n params b => [.text n, texts params, scopeAs .macroBody b]
  | .conditional d =>
    [condition d.head, node d.body, .list (d.elifs.map fun e => .list [node e.cond, node e.body]),
      optional node d.otherwise]
  | .namespaceBlock n b => [name n, scopeAs .topLevel b]
  | .usingNamespace n | .usingName n => [name n]

def scopeKind (k : ScopeKind) : Outline :=
  .list (.text k.kindName :: match k with
    | .members parent labeled => [node parent, .flag labeled]
    | _ => [])

def entry : Entry → Outline
  | .decl d => node d
  | .stmt s => node s
  | .directive d => node d

def ofNode : (c : Category) → Node c → Outline
  | .type, n => .list (.text n.kindName :: typeFields n)
  | .decl, n => .list (.text n.kindName :: declFields n)
  | .expr, n => .list (.text n.kindName :: exprFields n)
  | .stmt, n => .list (.text n.kindName :: stmtFields n)
  | .directive, n => .list (.text n.kindName :: directiveFields n)
  | .scope, n => .list [scopeKind n.kind, .list (n.entries.map entry)]

def stats (s : Stats) : Outline :=
  .list ([s.types, s.decls, s.exprs, s.stmts, s.directives, s.scopes].map .number)

def comments (c : Comments) : Outline :=
  .record [("before", optional .text c.before), ("after", optional .text c.after)]

def ofAnswer : Answer → Outline
  | .nothing => .absent
  | .handle i => .handle i
  | .text s => .text s
  | .texts ss => texts ss
  | .flag b => .flag b
  | .name n => name n
  | .aggregateKind k => .text k.keyword
  | .lifecycle l => lifecycle l
  | .varQualifiers q => varQualifiers q
  | .funcQualifiers q => funcQualifiers q
  | .methodQualifiers q => optional methodQualifiers q
  | .node c n => ofNode c n
  | .scopeKind k => scopeKind k
  | .entries es => .list (es.map entry)
  | .comments c => optional comments c
  | .stats s => stats s
  | .dialect d => .list [.text d.name, .flag d.isCxx]

end Outline

end CSource
