import CSource.Render.Text

/-!
Renaming. A map of handles carries over to nodes and to pieces of text. A node that is renamed is written in the
same way with its children renamed, so far as its text does not look anything up in the arena.
-/

namespace CSource

structure Renaming where
  apply : (c : Category) → Handle c → Handle c

instance : CoeFun Renaming fun _ => {c : Category} → Handle c → Handle c := ⟨fun f {c} h => f.apply c h⟩

def NodeRef.rename (f : Renaming) (r : NodeRef) : NodeRef := (f r.handle).ref

@[simp] theorem refRename (f : Renaming) {c : Category} (h : Handle c) : h.ref.rename f = (f h).ref := rfl

section Types

variable (f : Renaming)

def TemplateArg.rename : TemplateArg → TemplateArg
  | type ty => .type (f ty)
  | expr e => .expr (f e)

def Base.rename (b : Base) : Base := { b with ty := f b.ty }

def Region.rename (r : Region) : Region := { r with scope := f r.scope }

def Aggregate.rename (d : Aggregate) : Aggregate :=
  { d with bases := d.bases.map (·.rename f), regions := d.regions.map (·.rename f) }

def EnumMember.rename (m : EnumMember) : EnumMember := { m with value := m.value.map (f ·) }

def Enumeration.rename (d : Enumeration) : Enumeration :=
  { d with underlying := d.underlying.map (f ·), members := d.members.map (·.rename f) }

def TypeNode.rename : TypeNode → TypeNode
  | raw spelling => .raw spelling
  | void => .void
  | pointer ty => .pointer (f ty)
  | reference ty => .reference (f ty)
  | array element sizes => .array (f element) (sizes.map (f ·))
  | function ret params variadic => .function (f ret) (params.map (f ·)) variadic
  | named decl => .named (f decl)
  | synonym name aliased => .synonym name (f aliased)
  | aggregate data => .aggregate (data.rename f)
  | enumeration data => .enumeration (data.rename f)
  | instantiation template args => .instantiation (f template) (args.map (·.rename f))
  | pack element => .pack (f element)
  | parameter keyword => .parameter keyword

def VarShape.rename : VarShape → VarShape
  | plain => .plain
  | array sizes => .array (sizes.map (f ·))
  | construct args braced => .construct (args.map (f ·)) braced

def VarDecl.rename (d : VarDecl) : VarDecl :=
  { d with ty := f d.ty, init := d.init.map (f ·), shape := d.shape.rename f }

def Membership.rename (m : Membership) : Membership := { m with parent := f m.parent }

def MemberInit.rename (i : MemberInit) : MemberInit := { i with args := i.args.map (f ·) }

def FuncDecl.rename (d : FuncDecl) : FuncDecl :=
  { d with ret := d.ret.map (f ·), params := d.params.map (f ·), body := d.body.map (f ·),
           method := d.method.map (·.rename f), inits := d.inits.map (·.rename f) }

def DeclNode.rename : DeclNode → DeclNode
  | raw text => .raw text
  | var data => .var (data.rename f)
  | function data => .function (data.rename f)
  | splitForward func => .splitForward (f func)
  | aggregate ty forward => .aggregate (f ty) forward
  | enumeration ty forward => .enumeration (f ty) forward
  | typeDef ty => .typeDef (f ty)
  | usingType ty => .usingType (f ty)
  | template params inner => .template (params.map (f ·)) (f inner)

def LambdaExpr.rename (d : LambdaExpr) : LambdaExpr :=
  { d with params := d.params.map (f ·), ret := d.ret.map (f ·), body := f d.body }

def NewExpr.rename (d : NewExpr) : NewExpr :=
  { d with ty := f d.ty, args := d.args.map (f ·), arraySize := d.arraySize.map (f ·),
           placement := d.placement.map (f ·) }

def Fold.rename : Fold → Fold
  | unaryLeft => .unaryLeft
  | unaryRight => .unaryRight
  | binaryLeft start => .binaryLeft (f start)
  | binaryRight start => .binaryRight (f start)

def Association.rename (assoc : Association) : Association := ⟨assoc.ty.map (f ·), f assoc.value⟩

def Designator.rename (d : Designator) : Designator := { d with value := f d.value }

def ExprNode.rename : ExprNode → ExprNode
  | raw text => .raw text
  | var decl => .var (f decl)
  | typeName ty => .typeName (f ty)
  | subscript base index => .subscript (f base) (f index)
  | call callee args => .call (f callee) (args.map (f ·))
  | unary op operand leading => .unary op (f operand) leading
  | binary op lhs rhs => .binary op (f lhs) (f rhs)
  | ternary cond yes no => .ternary (f cond) (f yes) (f no)
  | cast ty operand => .cast (f ty) (f operand)
  | paren inner => .paren (f inner)
  | initList items => .initList (items.map (f ·))
  | designated fields => .designated (fields.map (·.rename f))
  | generic control assocs => .generic (f control) (assocs.map (·.rename f))
  | qualName name => .qualName name
  | lambda data => .lambda (data.rename f)
  | new data => .new (data.rename f)
  | delete operand array => .delete (f operand) array
  | userLiteral operand suffix => .userLiteral (f operand) suffix
  | instantiation template args => .instantiation (f template) (args.map (·.rename f))
  | packExpansion pack => .packExpansion (f pack)
  | fold op pack kind => .fold op (f pack) (kind.rename f)

def ElseIf.rename (b : ElseIf) : ElseIf := ⟨b.init.map (f ·), f b.cond, f b.body⟩

def IfStmt.rename (d : IfStmt) : IfStmt :=
  { d with init := d.init.map (f ·), cond := f d.cond, body := f d.body, elseIfs := d.elseIfs.map (·.rename f),
           otherwise := d.otherwise.map (f ·) }

def SwitchStmt.rename (d : SwitchStmt) : SwitchStmt := ⟨d.init.map (f ·), f d.cond, d.cases.map (f ·)⟩

def CaseLabel.rename (d : CaseLabel) : CaseLabel := { d with value := d.value.map (f ·), body := f d.body }

def Handler.rename (h : Handler) : Handler := ⟨h.decl.map (f ·), f h.body⟩

def TryStmt.rename (d : TryStmt) : TryStmt := ⟨f d.body, d.handlers.map (·.rename f)⟩

def StmtNode.rename : StmtNode → StmtNode
  | raw text => .raw text
  | empty => .empty
  | decl d => .decl (f d)
  | expr e => .expr (f e)
  | ifElse data => .ifElse (data.rename f)
  | whileLoop cond body => .whileLoop (f cond) (f body)
  | forLoop init cond step body => .forLoop (init.map (f ·)) (cond.map (f ·)) (step.map (f ·)) (f body)
  | forRange d range body => .forRange (f d) (f range) (f body)
  | doWhile cond body => .doWhile (f cond) (f body)
  | block body => .block (f body)
  | returnValue value => .returnValue (value.map (f ·))
  | breakLoop => .breakLoop
  | continueLoop => .continueLoop
  | label name inner => .label name (inner.map (f ·))
  | goto target => .goto target
  | switch data => .switch (data.rename f)
  | caseLabel data => .caseLabel (data.rename f)
  | throwValue value => .throwValue (value.map (f ·))
  | tryCatch data => .tryCatch (data.rename f)
  | usingNamespace name => .usingNamespace name

def Condition.rename : Condition → Condition
  | holds cond => .holds (f cond)
  | isDefined name => .isDefined name
  | isUndefined name => .isUndefined name

def Elif.rename (e : Elif) : Elif := ⟨f e.cond, f e.body⟩

def Conditional.rename (d : Conditional) : Conditional :=
  { d with head := d.head.rename f, body := f d.body, elifs := d.elifs.map (·.rename f),
           otherwise := d.otherwise.map (f ·) }

def DirectiveNode.rename : DirectiveNode → DirectiveNode
  | defineFunction name params body => .defineFunction name params (f body)
  | conditional data => .conditional (data.rename f)
  | namespaceBlock name body => .namespaceBlock name (f body)
  | raw text => .raw text
  | includeFile path system => .includeFile path system
  | define name value => .define name value
  | undef name => .undef name
  | pragma text => .pragma text
  | usingNamespace name => .usingNamespace name
  | usingName name => .usingName name

def ScopeKind.rename : ScopeKind → ScopeKind
  | members parent labeled => .members (f parent) labeled
  | topLevel => .topLevel
  | function => .function
  | macroBody => .macroBody

def Entry.rename : Entry → Entry
  | decl d => .decl (f d)
  | stmt s => .stmt (f s)
  | directive d => .directive (f d)

def ScopeNode.rename (n : ScopeNode) : ScopeNode := ⟨n.kind.rename f, n.entries.map (·.rename f)⟩

def Node.rename : (c : Category) → Node c → Node c
  | .type, n => TypeNode.rename f n
  | .decl, n => DeclNode.rename f n
  | .expr, n => ExprNode.rename f n
  | .stmt, n => StmtNode.rename f n
  | .directive, n => DirectiveNode.rename f n
  | .scope, n => ScopeNode.rename f n

def Piece.rename : Piece → Piece
  | code text => .code text
  | child r => .child (r.rename f)
  | fault cause => .fault cause

def Segment.rename : Segment → Segment
  | code text => .code text
  | comment owner side text => .comment (owner.rename f) side text

end Types

def Renaming.same : Renaming := ⟨fun _ h => h⟩

def Renaming.after (g f : Renaming) : Renaming := ⟨fun _ h => g (f h)⟩

section Laws

variable (f g : Renaming)

@[simp] theorem applySame {c : Category} (h : Handle c) : Renaming.same.apply c h = h := rfl

@[simp] theorem applyAfter {c : Category} (h : Handle c) : (g.after f).apply c h = g.apply c (f.apply c h) := rfl

@[simp] theorem TemplateArg.renameSame (x : TemplateArg) : x.rename .same = x := by cases x <;> rfl

@[simp] theorem TemplateArg.renameAfter (x : TemplateArg) : x.rename (g.after f) = (x.rename f).rename g := by
  cases x <;> rfl

theorem TypeNode.renameSame (n : TypeNode) : n.rename .same = n := by
  cases n <;> simp [TypeNode.rename, Aggregate.rename, Base.rename, Region.rename, Enumeration.rename,
    EnumMember.rename]

theorem TypeNode.renameAfter (n : TypeNode) : n.rename (g.after f) = (n.rename f).rename g := by
  cases n <;> simp [TypeNode.rename, Aggregate.rename, Base.rename, Region.rename, Enumeration.rename,
    EnumMember.rename, Function.comp_def]

@[simp] theorem VarShape.renameSame (x : VarShape) : x.rename .same = x := by cases x <;> simp [VarShape.rename]

@[simp] theorem VarShape.renameAfter (x : VarShape) : x.rename (g.after f) = (x.rename f).rename g := by
  cases x <;> simp [VarShape.rename]

theorem DeclNode.renameSame (n : DeclNode) : n.rename .same = n := by
  cases n <;> simp [DeclNode.rename, VarDecl.rename, FuncDecl.rename, Membership.rename, MemberInit.rename]

theorem DeclNode.renameAfter (n : DeclNode) : n.rename (g.after f) = (n.rename f).rename g := by
  cases n <;> simp [DeclNode.rename, VarDecl.rename, FuncDecl.rename, Membership.rename, MemberInit.rename,
    Function.comp_def]

@[simp] theorem Fold.renameSame (x : Fold) : x.rename .same = x := by cases x <;> rfl

@[simp] theorem Fold.renameAfter (x : Fold) : x.rename (g.after f) = (x.rename f).rename g := by cases x <;> rfl

theorem ExprNode.renameSame (n : ExprNode) : n.rename .same = n := by
  cases n <;> simp [ExprNode.rename, LambdaExpr.rename, NewExpr.rename, Association.rename, Designator.rename]

theorem ExprNode.renameAfter (n : ExprNode) : n.rename (g.after f) = (n.rename f).rename g := by
  cases n <;> simp [ExprNode.rename, LambdaExpr.rename, NewExpr.rename, Association.rename, Designator.rename,
    Function.comp_def]

theorem StmtNode.renameSame (n : StmtNode) : n.rename .same = n := by
  cases n <;> simp [StmtNode.rename, IfStmt.rename, ElseIf.rename, SwitchStmt.rename, CaseLabel.rename,
    TryStmt.rename, Handler.rename]

theorem StmtNode.renameAfter (n : StmtNode) : n.rename (g.after f) = (n.rename f).rename g := by
  cases n <;> simp [StmtNode.rename, IfStmt.rename, ElseIf.rename, SwitchStmt.rename, CaseLabel.rename,
    TryStmt.rename, Handler.rename, Function.comp_def]

@[simp] theorem Condition.renameSame (x : Condition) : x.rename .same = x := by cases x <;> rfl

@[simp] theorem Condition.renameAfter (x : Condition) : x.rename (g.after f) = (x.rename f).rename g := by
  cases x <;> rfl

theorem DirectiveNode.renameSame (n : DirectiveNode) : n.rename .same = n := by
  cases n <;> simp [DirectiveNode.rename, Conditional.rename, Elif.rename]

theorem DirectiveNode.renameAfter (n : DirectiveNode) : n.rename (g.after f) = (n.rename f).rename g := by
  cases n <;> simp [DirectiveNode.rename, Conditional.rename, Elif.rename, Function.comp_def]

theorem ScopeNode.renameSame (n : ScopeNode) : n.rename .same = n := by
  have kind : n.kind.rename .same = n.kind := by cases n.kind <;> rfl
  have entry (e : Entry) : e.rename .same = e := by cases e <;> rfl
  simp [ScopeNode.rename, kind, entry]

theorem ScopeNode.renameAfter (n : ScopeNode) : n.rename (g.after f) = (n.rename f).rename g := by
  have kind : n.kind.rename (g.after f) = (n.kind.rename f).rename g := by cases n.kind <;> rfl
  have entry (e : Entry) : e.rename (g.after f) = (e.rename f).rename g := by cases e <;> rfl
  simp [ScopeNode.rename, kind, entry]

@[simp] theorem Node.renameSame {c : Category} (n : Node c) : Node.rename .same c n = n := by
  cases c with
  | type => exact TypeNode.renameSame n
  | decl => exact DeclNode.renameSame n
  | expr => exact ExprNode.renameSame n
  | stmt => exact StmtNode.renameSame n
  | directive => exact DirectiveNode.renameSame n
  | scope => exact ScopeNode.renameSame n

theorem Node.renameAfter {c : Category} (n : Node c) :
    Node.rename (g.after f) c n = Node.rename g c (Node.rename f c n) := by
  cases c with
  | type => exact TypeNode.renameAfter f g n
  | decl => exact DeclNode.renameAfter f g n
  | expr => exact ExprNode.renameAfter f g n
  | stmt => exact StmtNode.renameAfter f g n
  | directive => exact DirectiveNode.renameAfter f g n
  | scope => exact ScopeNode.renameAfter f g n

end Laws

namespace Pieces

variable (f : Renaming)

def rename (ps : Pieces) : Pieces := ps.map (Piece.rename f)

@[simp] theorem renameNil : rename f [] = [] := rfl

@[simp] theorem renameCode (text : String) (ps : Pieces) :
    rename f (.code text :: ps) = .code text :: rename f ps := rfl

@[simp] theorem renameChild (r : NodeRef) (ps : Pieces) :
    rename f (.child r :: ps) = .child (r.rename f) :: rename f ps := rfl

@[simp] theorem renameAppend (ps qs : Pieces) : rename f (ps ++ qs) = rename f ps ++ rename f qs := List.map_append

@[simp] theorem renameFlatMap {α : Type} (g : α → Pieces) (xs : List α) :
    rename f (xs.flatMap g) = xs.flatMap fun x => rename f (g x) := List.map_flatMap

@[simp] theorem renameOfText (text : String) : rename f (ofText text) = ofText text := rfl

@[simp] theorem renameOfHandle {c : Category} (h : Handle c) : rename f (ofHandle h) = ofHandle (f h) := rfl

@[simp] theorem renameInParens (ps : Pieces) : rename f (inParens ps) = inParens (rename f ps) := by
  simp [inParens]

@[simp] theorem renameInBrackets (ps : Pieces) : rename f (inBrackets ps) = inBrackets (rename f ps) := by
  simp [inBrackets]

@[simp] theorem renameInBraces (ps : Pieces) : rename f (inBraces ps) = inBraces (rename f ps) := by
  simp [inBraces]

@[simp] theorem renameSeparated (separator : String) (items : List Pieces) :
    rename f (separated separator items) = separated separator (items.map (rename f)) := by
  induction items with
  | nil => rfl
  | cons item items ih =>
    cases items with
    | nil => rfl
    | cons next rest => simp_all [separated]

@[simp] theorem renameCommaHandles {c : Category} (hs : List (Handle c)) :
    rename f (commaHandles hs) = commaHandles (hs.map (f ·)) := by
  simp [commaHandles, Function.comp_def]

@[simp] theorem renameFlagged (flags : List (Bool × String)) : rename f (flagged flags) = flagged flags := by
  simp [rename, flagged, Piece.rename, Function.comp_def]

@[simp] theorem renameParams {c : Category} (hs : List (Handle c)) (variadic : Bool) :
    rename f (params hs variadic) = params (hs.map (f ·)) variadic := by
  cases variadic <;> simp [params, variadicMark]

@[simp] theorem renameOption {α : Type} (g : α → Pieces) (x : Option α) :
    rename f (ofOption g x) = ofOption (fun x => rename f (g x)) x := by
  cases x <;> rfl

@[simp] theorem ofOptionMap {α β : Type} (g : β → Pieces) (r : α → β) (x : Option α) :
    ofOption g (x.map r) = ofOption (fun x => g (r x)) x := by
  cases x <;> rfl

@[simp] theorem renameEnclosed (braced : Bool) (args : List ExprRef) :
    rename f (Render.enclosed braced args) = Render.enclosed braced (args.map (f ·)) := by
  cases braced <;> simp [Render.enclosed]

@[simp] theorem renameBlock (body : ScopeRef) : rename f (Render.block body) = Render.block (f body) := by
  simp [Render.block]

end Pieces

section Written

open Pieces Render

variable (f : Renaming)

@[simp] theorem renameCondition (init : Option DeclRef) (cond : ExprRef) :
    rename f (condition init cond) = condition (init.map (f ·)) (f cond) := by
  simp [condition]

@[simp] theorem renameHandler (h : Handler) : rename f (handler h) = handler (h.rename f) := by
  unfold handler Handler.rename
  cases h.decl <;> simp

@[simp] theorem renameElseIf (b : ElseIf) : rename f (elseIf b) = elseIf (b.rename f) := by
  simp [elseIf, ElseIf.rename]

theorem renameStmt (n : StmtNode) : stmt (n.rename f) = rename f (stmt n) := by
  cases n with
  | ifElse data => simp [stmt, StmtNode.rename, ifElse, IfStmt.rename, List.flatMap_map]
  | forLoop init cond step body => cases init <;> simp [stmt, StmtNode.rename, forHeader]
  | returnValue value | throwValue value => simp [stmt, StmtNode.rename, jump]
  | label name inner => cases inner <;> simp [stmt, StmtNode.rename]
  | switch data => simp [stmt, StmtNode.rename, SwitchStmt.rename, List.flatMap_map]
  | caseLabel data =>
    simp only [stmt, StmtNode.rename, caseLabel, CaseLabel.rename]
    cases data.value <;> simp
  | tryCatch data => simp [stmt, StmtNode.rename, TryStmt.rename, List.flatMap_map]
  | _ => simp [stmt, StmtNode.rename]

theorem renameDirective (n : DirectiveNode) : directive (n.rename f) = rename f (directive n) := by
  cases n with
  | define name value => cases value <;> rfl
  | defineFunction name ps body => simp [directive, DirectiveNode.rename, Function.comp_def]
  | conditional data =>
    have head : rename f (conditionHead data.head) = conditionHead (data.head.rename f) := by cases data.head <;> rfl
    simp [directive, DirectiveNode.rename, conditional, Conditional.rename, head, elif, Elif.rename,
      List.flatMap_map]
  | namespaceBlock name body => simp [directive, DirectiveNode.rename]
  | _ => rfl

theorem renameScope (n : ScopeNode) : scope (n.rename f) = rename f (scope n) := by
  have kind : (n.kind.rename f).endsLines = n.kind.endsLines := by cases n.kind <;> rfl
  have each (e : Entry) : (e.rename f).ref = e.ref.rename f := by cases e <;> rfl
  cases ends : n.kind.endsLines <;> simp [scope, ScopeNode.rename, kind, ends, each, List.flatMap_map]

@[simp] theorem renameTemplateArgs (args : List TemplateArg) :
    rename f (templateArgs args) = templateArgs (args.map (·.rename f)) := by
  have each (arg : TemplateArg) : (arg.rename f).ref = arg.ref.rename f := by cases arg <;> rfl
  simp [templateArgs, each, Function.comp_def]

@[simp] theorem renameArraySizes (sizes : List ExprRef) :
    rename f (arraySizes sizes) = arraySizes (sizes.map (f ·)) := by
  cases sizes with
  | nil => rfl
  | cons size sizes => simp [arraySizes, List.flatMap_map]

@[simp] theorem renameTaggedName (keyword : String) (name : QualName) :
    rename f (taggedName keyword (.ok name)) = taggedName keyword (.ok name) := by
  simp [taggedName, ofName]

@[simp] theorem renameEnumHead (data : Enumeration) : rename f (enumHead data) = enumHead (data.rename f) := by
  simp [enumHead, Enumeration.rename]

theorem renameAggregate (data : Aggregate) : rename f (aggregate data) = aggregate (data.rename f) := by
  have bases : rename f (baseList data.bases) = baseList (data.bases.map (·.rename f)) := by
    cases data.bases with
    | nil => rfl
    | cons base bases => simp [baseList, Base.rename, Function.comp_def]
  simp [aggregate, aggregateHead, Aggregate.rename, bases, region, Region.rename, List.flatMap_map]

theorem renameEnumeration (data : Enumeration) : rename f (enumeration data) = enumeration (data.rename f) := by
  simp [enumeration, Enumeration.rename, enumMember, EnumMember.rename, List.flatMap_map]

@[simp] theorem renameVarShape (shape : VarShape) : rename f (varShape shape) = varShape (shape.rename f) := by
  cases shape <;> simp [varShape, VarShape.rename]

@[simp] theorem renameNameSuffix (name : String) : rename f (nameSuffix name) = nameSuffix name := by
  unfold nameSuffix
  split <;> rfl

@[simp] theorem renameMemberInits (inits : List MemberInit) :
    rename f (memberInits inits) = memberInits (inits.map (·.rename f)) := by
  cases inits with
  | nil => rfl
  | cons i inits => simp [memberInits, memberInit, MemberInit.rename, Function.comp_def]

theorem renameLambda (data : LambdaExpr) : rename f (lambda data) = lambda (data.rename f) := by
  simp [lambda, LambdaExpr.rename, Function.comp_def]

theorem renameNew (data : NewExpr) : rename f (new data) = new (data.rename f) := by
  simp [new, NewExpr.rename]

theorem renameFold (op : String) (pack : ExprRef) (kind : Fold) :
    rename f (fold op pack kind) = fold op (f pack) (kind.rename f) := by
  cases kind <;> simp [fold, Fold.rename]

theorem renameAssociation (assoc : Association) : rename f (association assoc) = association (assoc.rename f) := by
  unfold association Association.rename
  cases assoc.ty <;> simp

end Written

end CSource
