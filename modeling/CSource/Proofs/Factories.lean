import CSource.Proofs.Parallel

/-!
Factory calls. A call of a factory carries its handles as values, so it can be renamed like a node. Renamed or not,
a factory makes the same thing out of what its handles name.
-/

namespace CSource

open Build

def Fixes (f : Renaming) (ss : List Slot) : Prop := ∀ s ∈ ss, f s.ref.handle = s.ref.handle

section Fixed

variable {f : Renaming}

theorem mapFixed {α : Type} {g : α → α} {xs : List α} : xs.map g = xs ↔ ∀ x ∈ xs, g x = x := by
  have same := List.map_inj_left (f := g) (g := id) (l := xs)
  rwa [List.map_id] at same

theorem mapFixedOption {α : Type} {g : α → α} {x : Option α} : x.map g = x ↔ ∀ y ∈ x, g y = y := by
  cases x <;> simp

@[simp] theorem fixesNil : Fixes f [] := nofun

@[simp] theorem fixesCons {s : Slot} {ss : List Slot} :
    Fixes f (s :: ss) ↔ f s.ref.handle = s.ref.handle ∧ Fixes f ss := List.forall_mem_cons

@[simp] theorem fixesAppend {ss ts : List Slot} : Fixes f (ss ++ ts) ↔ Fixes f ss ∧ Fixes f ts :=
  List.forall_mem_append

@[simp] theorem fixesMap {α : Type} {g : α → Slot} {xs : List α} :
    Fixes f (xs.map g) ↔ ∀ x ∈ xs, f (g x).ref.handle = (g x).ref.handle := List.forall_mem_map

@[simp] theorem fixesFlatMap {α : Type} {g : α → List Slot} {xs : List α} :
    Fixes f (xs.flatMap g) ↔ ∀ x ∈ xs, Fixes f (g x) := List.forall_mem_flatMap

@[simp] theorem fixesPlain {c : Category} {hs : List (Handle c)} :
    Fixes f (plainSlots hs) ↔ hs.map (f ·) = hs := by
  rw [mapFixed]
  exact List.forall_mem_map

@[simp] theorem fixedRef {c : Category} {h : Handle c} :
    f.apply h.ref.category h.ref.handle = h.ref.handle ↔ f h = h := Iff.rfl

@[simp] theorem fixesOption {c : Category} {h : Option (Handle c)} :
    Fixes f (optionSlots h) ↔ h.map (f ·) = h := by
  cases h <;> simp [optionSlots]

@[simp] theorem fixedArg {arg : TemplateArg} :
    f.apply arg.slot.ref.category arg.slot.ref.handle = arg.slot.ref.handle ↔ arg.rename f = arg := by
  cases arg with
  | type ty => exact fixedRef.trans (by simp [TemplateArg.rename])
  | expr e => exact fixedRef.trans (by simp [TemplateArg.rename])

@[simp] theorem fixedEntry {e : Entry} :
    f.apply e.slot.ref.category e.slot.ref.handle = e.slot.ref.handle ↔ e.rename f = e := by
  cases e with
  | decl d => exact fixedRef.trans (by simp [Entry.rename])
  | stmt s => exact fixedRef.trans (by simp [Entry.rename])
  | directive d => exact fixedRef.trans (by simp [Entry.rename])

@[simp] theorem fixedPlace {p : Place} :
    f.apply p.slot.ref.category p.slot.ref.handle = p.slot.ref.handle ↔ f p.scope = p.scope := Iff.rfl

theorem TypeNode.fixed {n : TypeNode} (fixes : Fixes f n.slots) : n.rename f = n := by
  cases n with
  | aggregate data =>
    cases data
    simp_all [TypeNode.slots, TypeNode.rename, Aggregate.rename, Base.rename, Region.rename, mapFixed]
  | enumeration data =>
    cases data
    simp_all [TypeNode.slots, TypeNode.rename, Enumeration.rename, EnumMember.rename, mapFixed]
  | _ => simp_all [TypeNode.slots, TypeNode.rename, mapFixed]

theorem VarShape.fixed {shape : VarShape} (fixes : Fixes f shape.slots) : shape.rename f = shape := by
  cases shape <;> simp_all [VarShape.slots, VarShape.rename]

@[simp] theorem fixedInit {i : MemberInit} : i.rename f = i ↔ i.args.map (f ·) = i.args := by
  cases i
  simp [MemberInit.rename]

@[simp] theorem fixedMembership {m : Membership} : m.rename f = m ↔ f m.parent = m.parent := by
  cases m
  simp [Membership.rename]

theorem DeclNode.fixed {n : DeclNode} (fixes : Fixes f n.slots) : n.rename f = n := by
  cases n with
  | var data => simp_all [DeclNode.slots, DeclNode.rename, VarDecl.rename, VarShape.fixed]
  | function data =>
    cases data
    simpa [DeclNode.slots, DeclNode.rename, FuncDecl.rename, mapFixed, mapFixedOption] using fixes
  | _ => simp_all [DeclNode.slots, DeclNode.rename]

@[simp] theorem fixesFold {kind : Fold} : Fixes f kind.slots ↔ kind.rename f = kind := by
  cases kind <;> simp [Fold.slots, Fold.rename]

theorem NewExpr.fixed {data : NewExpr} (fixes : Fixes f data.slots) : data.rename f = data := by
  simp_all [NewExpr.slots, NewExpr.rename]

theorem ExprNode.fixed {n : ExprNode} (fixes : Fixes f n.slots) : n.rename f = n := by
  cases n with
  | lambda data =>
    cases data
    simp_all [ExprNode.slots, ExprNode.rename, LambdaExpr.rename]
  | new data => simp_all [ExprNode.slots, ExprNode.rename, NewExpr.fixed]
  | _ => simp_all [ExprNode.slots, ExprNode.rename, Designator.rename, Association.rename, mapFixed]

@[simp] theorem fixedElseIf {b : ElseIf} :
    b.rename f = b ↔ b.init.map (f ·) = b.init ∧ f b.cond = b.cond ∧ f b.body = b.body := by
  cases b
  simp [ElseIf.rename]

theorem StmtNode.fixed {n : StmtNode} (fixes : Fixes f n.slots) : n.rename f = n := by
  cases n with
  | ifElse data =>
    cases data
    simp [StmtNode.slots, StmtNode.rename, IfStmt.rename, mapFixed, mapFixedOption] at fixes ⊢
    grind
  | switch data =>
    cases data
    simp_all [StmtNode.slots, StmtNode.rename, SwitchStmt.rename, mapFixed]
  | tryCatch data =>
    cases data
    simp_all [StmtNode.slots, StmtNode.rename, TryStmt.rename, Handler.rename, mapFixed]
  | caseLabel data =>
    cases data
    simp_all [StmtNode.slots, StmtNode.rename, CaseLabel.rename]
  | _ => simp_all [StmtNode.slots, StmtNode.rename, mapFixedOption]

theorem DirectiveNode.fixed {n : DirectiveNode} (fixes : Fixes f n.slots) : n.rename f = n := by
  cases n with
  | conditional data =>
    have head : Fixes f data.head.slots ↔ data.head.rename f = data.head := by
      cases data.head <;> simp [Condition.slots, Condition.rename]
    cases data
    simp_all [DirectiveNode.slots, Conditional.slots, DirectiveNode.rename, Conditional.rename, Elif.rename, mapFixed,
      mapFixedOption]
  | _ => simp_all [DirectiveNode.slots, DirectiveNode.rename]

theorem ScopeNode.fixed {n : ScopeNode} (fixes : Fixes f n.slots) : n.rename f = n := by
  obtain ⟨kind, entries⟩ := n
  have kept : Fixes f kind.slots ↔ kind.rename f = kind := by
    cases kind <;> simp [ScopeKind.slots, ScopeKind.parent?, ScopeKind.rename]
  simp_all [ScopeNode.slots, ScopeNode.rename, mapFixed]

theorem Node.fixed {c : Category} {n : Node c} (fixes : Fixes f (Node.slots c n)) : Node.rename f c n = n := by
  cases c with
  | type => exact TypeNode.fixed fixes
  | decl => exact DeclNode.fixed fixes
  | expr => exact ExprNode.fixed fixes
  | stmt => exact StmtNode.fixed fixes
  | directive => exact DirectiveNode.fixed fixes
  | scope => exact ScopeNode.fixed fixes

end Fixed

section Calls

variable {f g : Renaming}

def Issued.rename (f : Renaming) : Issued → Issued
  | node c h => .node c (f h)
  | typed r h => .typed r (h.rename f)
  | place p => .place ⟨p.kind, f p.scope⟩
  | aggregate c => .aggregate (c.rename f)
  | enumeration e => .enumeration (e.rename f)
  | templated template inner => .templated (f template) (inner.rename f)

/-- The answer with its handle renamed. Calls that make something answer with a handle. -/
def Answer.rename (f : Renaming) : Answer → Answer
  | handle i => .handle (i.rename f)
  | other => other

def TypeCall.rename (f : Renaming) : TypeCall → TypeCall
  | primitive p => .primitive p
  | auto => .auto
  | parameter keyword => .parameter keyword
  | raw spelling => .raw spelling
  | pointer ty => .pointer (f ty)
  | reference ty => .reference (f ty)
  | array ty sizes => .array (f ty) (sizes.map (f ·))
  | function ret params variadic => .function (f ret) (params.map (f ·)) variadic
  | named decl => .named (f decl)
  | instantiation template args => .instantiation (f template) (args.map (·.rename f))
  | rawInstantiation name args => .rawInstantiation name (args.map (·.rename f))
  | pack ty => .pack (f ty)
  | newAggregate kind name => .newAggregate kind name
  | newEnum name key => .newEnum name key
  | namedClass c => .namedClass (c.rename f)
  | members c => .members (c.rename f)
  | addRegion c access => .addRegion (c.rename f) access
  | addBase c access base => .addBase (c.rename f) access (f base)
  | setFinal c isFinal => .setFinal (c.rename f) isFinal
  | forwardClass c => .forwardClass (c.rename f)
  | namedEnum e => .namedEnum (e.rename f)
  | addEnumMember e name value => .addEnumMember (e.rename f) name (value.map (f ·))
  | setUnderlying e ty => .setUnderlying (e.rename f) (f ty)
  | setEnumKey e key => .setEnumKey (e.rename f) key
  | forwardEnum e => .forwardEnum (e.rename f)

def DeclCall.rename (f : Renaming) : DeclCall → DeclCall
  | raw text => .raw text
  | var name ty init => .var name (f ty) (init.map (f ·))
  | arrayVar name ty sizes init => .arrayVar name (f ty) (sizes.map (f ·)) (init.map (f ·))
  | constructedVar name ty args braced => .constructedVar name (f ty) (args.map (f ·)) braced
  | function name ret params variadic => .function name (f ret) (params.map (f ·)) variadic
  | template params inner => .template (params.map (f ·)) (f inner)
  | rawTemplate name => .rawTemplate name
  | setVarQualifiers d quals => .setVarQualifiers (f d) quals
  | body func => .body (func.rename f)
  | setQualifiers func quals => .setQualifiers (func.rename f) quals
  | setMethodQualifiers func quals => .setMethodQualifiers (func.rename f) quals
  | addMemberInit func member args => .addMemberInit (func.rename f) member (args.map (f ·))

def ExprCall.rename (f : Renaming) : ExprCall → ExprCall
  | raw text => .raw text
  | literal l => .literal l
  | var d => .var (f d)
  | typeName ty => .typeName (f ty)
  | subscript base index => .subscript (f base) (f index)
  | call callee args => .call (f callee) (args.map (f ·))
  | unary op x => .unary op (f x)
  | postfixed x op => .postfixed (f x) op
  | binary lhs op rhs => .binary (f lhs) op (f rhs)
  | ternary cond yes no => .ternary (f cond) (f yes) (f no)
  | cast ty x => .cast (f ty) (f x)
  | paren inner => .paren (f inner)
  | initList items => .initList (items.map (f ·))
  | designated fields => .designated (fields.map (·.rename f))
  | generic control => .generic (f control)
  | addAssociation selection ty value => .addAssociation (selection.rename f) (ty.map (f ·)) (f value)
  | qualName name => .qualName name
  | lambda captures params variadic ret => .lambda captures (params.map (f ·)) variadic (ret.map (f ·))
  | new data => .new (data.rename f)
  | delete x array => .delete (f x) array
  | userLiteral x suffix => .userLiteral (f x) suffix
  | instantiation template args => .instantiation (f template) (args.map (·.rename f))
  | rawInstantiation name args => .rawInstantiation name (args.map (·.rename f))
  | packExpansion pack => .packExpansion (f pack)
  | fold op pack kind => .fold op (f pack) (kind.rename f)
  | operator op x => .operator op (f x)
  | compare lhs op rhs => .compare (f lhs) op (f rhs)
  | select lhs selection member => .select (f lhs) selection member
  | sizeof ty => .sizeof (f ty)
  | vaArg list ty => .vaArg (f list) (f ty)
  | short x => .short (x.rename f)
  | shortUnary op x => .shortUnary op (x.rename f)
  | shortPostfix x op => .shortPostfix (x.rename f) op
  | shortBinary lhs op rhs => .shortBinary (lhs.rename f) op (rhs.rename f)
  | shortCall callee args => .shortCall (callee.rename f) (args.map (·.rename f))
  | shortIndex base indices => .shortIndex (base.rename f) (indices.map (·.rename f))

def TypeCall.isShared : TypeCall → Bool
  | primitive _ | auto | raw _ | pointer _ | reference _ | array _ _ | named _ | namedClass _ | namedEnum _ => true
  | _ => false

theorem TypeCall.alike (call : TypeCall) (factory : call.changed = []) (unshared : call.isShared = false) :
    Alike f g (·.rename f) call.perform (call.rename f).perform := by
  cases call with
  | parameter keyword => exact (typeParameterAlike keyword).map fun _ => rfl
  | function ret params variadic => exact (functionTypeAlike ret params variadic).map fun _ => rfl
  | instantiation template args => exact (instantiationTypeAlike template args).map fun _ => rfl
  | rawInstantiation name args => exact (rawInstantiationTypeAlike name args).map fun _ => rfl
  | pack ty => exact (packTypeAlike ty).map fun _ => rfl
  | newAggregate kind name => exact (newAggregateAlike kind name).map fun _ => rfl
  | newEnum name key => exact (newEnumAlike name key).map fun _ => rfl
  | forwardClass c => exact (Alike.alloc (c := .decl) _).map fun _ => rfl
  | forwardEnum e => exact (Alike.alloc (c := .decl) _).map fun _ => rfl
  | _ => contradiction

theorem DeclCall.alike (call : DeclCall) (factory : call.changed = []) :
    Alike f g (·.rename f) call.perform (call.rename f).perform := by
  cases call with
  | raw text => exact (Alike.alloc (c := .decl) _).map fun _ => rfl
  | var name ty init => exact (newVarAlike name ty init .plain).map fun _ => rfl
  | arrayVar name ty sizes init => exact (arrayVarDeclAlike name ty sizes init).map fun _ => rfl
  | constructedVar name ty args braced => exact (constructedVarDeclAlike name ty args braced).map fun _ => rfl
  | function name ret params variadic => exact (functionDeclAlike name ret params variadic).map fun _ => rfl
  | template params inner => exact (templateDeclAlike params inner).map fun _ => rfl
  | rawTemplate name => exact (rawTemplateDeclAlike name).map fun _ => rfl
  | _ => contradiction

theorem ExprCall.alike (call : ExprCall) (factory : call.changed = []) :
    Alike f g (·.rename f) call.perform (call.rename f).perform := by
  have made {m m' : Build ExprRef} (alike : Alike f g (f ·) m m') :
      Alike f g (·.rename f) (Answer.expr <$> m) (Answer.expr <$> m') := alike.map fun _ => rfl
  cases call with
  | raw text => exact made (rawExprAlike text)
  | literal l => exact made (literalExprAlike l)
  | var d => exact made (varExprAlike d)
  | typeName ty => exact made (typeExprAlike ty)
  | subscript base index => exact made (subscriptExprAlike base index)
  | call callee args => exact made (callExprAlike callee args)
  | unary op x => exact made (unaryExprAlike op x)
  | postfixed x op => exact made (postfixExprAlike x op)
  | binary lhs op rhs => exact made (binaryExprAlike lhs op rhs)
  | ternary cond yes no =>
    exact made ((Alike.own cond).bind fun _ => (Alike.own yes).bind fun _ => (Alike.own no).bind fun _ => .alloc _)
  | cast ty x => exact made ((Alike.own ty).bind fun _ => (Alike.own x).bind fun _ => .alloc _)
  | paren inner => exact made (parenExprAlike inner)
  | initList items => exact made ((Alike.ownEach items).bind fun _ => .alloc _)
  | designated fields => exact made (designatedExprAlike fields)
  | generic control => exact (genericExprAlike control).map fun _ => rfl
  | addAssociation => contradiction
  | qualName name => exact made ((Alike.require _).bind fun _ => .alloc _)
  | lambda captures params variadic ret => exact (lambdaExprAlike captures params variadic ret).map fun _ => rfl
  | new data => exact made (newExprAlike data)
  | delete x array => exact made ((Alike.require _).bind fun _ => (Alike.own x).bind fun _ => .alloc _)
  | userLiteral x suffix => exact made ((Alike.require _).bind fun _ => (Alike.own x).bind fun _ => .alloc _)
  | instantiation template args => exact made (instantiationExprAlike template args)
  | rawInstantiation name args =>
    exact made ((rawTemplateDeclAlike name).bind fun template => instantiationExprAlike template args)
  | packExpansion pack => exact made ((Alike.require _).bind fun _ => (Alike.own pack).bind fun _ => .alloc _)
  | fold op pack kind => exact made (foldExprAlike op pack kind)
  | operator op x => exact made (unaryExprAlike op.spelling x)
  | compare lhs op rhs => exact made (binaryExprAlike lhs op.spelling rhs)
  | select lhs selection member =>
    exact made ((rawExprAlike member).bind fun rhs => binaryExprAlike lhs selection.spelling rhs)
  | sizeof ty =>
    exact made ((rawExprAlike _).bind fun callee => (typeExprAlike ty).bind fun operand =>
      callExprAlike callee [operand])
  | vaArg list ty =>
    exact made ((rawExprAlike _).bind fun callee => (typeExprAlike ty).bind fun operand =>
      callExprAlike callee [list, operand])
  | short x => exact made (operandAlike x)
  | shortUnary op x =>
    exact made ((operandAlike x).bind fun x => (unaryExprAlike op x).bind fun e => parenExprAlike e)
  | shortPostfix x op =>
    exact made ((operandAlike x).bind fun x => (postfixExprAlike x op).bind fun e => parenExprAlike e)
  | shortBinary lhs op rhs =>
    exact made ((operandAlike lhs).bind fun l => (operandAlike rhs).bind fun r =>
      (binaryExprAlike l op r).bind fun e => parenExprAlike e)
  | shortCall callee args =>
    exact made ((operandAlike callee).bind fun h => (Alike.mapM operandAlike args).bind fun hs =>
      (callExprAlike h hs).bind fun e => parenExprAlike e)
  | shortIndex base indices =>
    exact made ((operandAlike base).bind fun h => (subscriptsAlike h indices).bind fun e => parenExprAlike e)

@[simp] theorem fixedTyped {r : Role} {t : Typed r} : t.rename f = t ↔ f t.handle = t.handle := by
  cases t
  simp [Typed.rename]

@[simp] theorem fixedClass {c : ClassRef} : c.rename f = c ↔ f c.ty = c.ty ∧ f c.decl = c.decl := by
  cases c
  simp [ClassRef.rename]

@[simp] theorem fixedEnum {e : EnumRef} : e.rename f = e ↔ f e.ty = e.ty ∧ f e.decl = e.decl := by
  cases e
  simp [EnumRef.rename]

@[simp] theorem fixesOperand {x : Operand} : Fixes f x.slots ↔ x.rename f = x := by
  cases x <;> simp [Operand.slots, Operand.rename]

theorem TypeCall.fixed {call : TypeCall} (fixes : Fixes f (slotsOf (call.checked ++ call.unchecked))) :
    call.rename f = call := by
  cases call <;> simp_all [TypeCall.checked, TypeCall.unchecked, TypeCall.rename, Issued.slots, mapFixed]

theorem DeclCall.fixed {call : DeclCall} (fixes : Fixes f (slotsOf call.checked)) : call.rename f = call := by
  cases call <;> simp_all [DeclCall.checked, DeclCall.rename]

theorem ExprCall.fixed {call : ExprCall} (fixes : Fixes f (slotsOf call.checked)) : call.rename f = call := by
  cases call with
  | new data => simp_all [ExprCall.checked, ExprCall.rename, NewExpr.fixed]
  | _ => simp_all [ExprCall.checked, ExprCall.rename, Designator.rename, mapFixed]

def Call.isShared : Call → Bool
  | type call => call.isShared
  | _ => false

/-- A factory whose handles are fixed makes copies of what it makes elsewhere. Only a shared type may be there
already. -/
theorem Call.alike {call : Call} (factory : call.isFactory = true) (unshared : call.isShared = false)
    (fixes : Fixes f (slotsOf call.handles)) : Alike f g (·.rename f) call.perform call.perform := by
  obtain ⟨unchanged, unremarked⟩ := Call.isFactoryIff.mp factory
  cases call with
  | type call =>
    have made := call.alike (f := f) (g := g) unchanged unshared
    rwa [call.fixed fixes] at made
  | decl call =>
    have made := call.alike (f := f) (g := g) unchanged
    rwa [call.fixed (by simpa [Call.handles, Call.checked, Call.unchecked] using fixes)] at made
  | expr call =>
    have made := call.alike (f := f) (g := g) unchanged
    rwa [call.fixed (by simpa [Call.handles, Call.checked, Call.unchecked] using fixes)] at made
  | newTopLevel =>
    exact ((Alike.alloc (c := .scope) _).bind fun h => Alike.pure (x := Place.mk .topLevel h) rfl).map fun _ => rfl
  | looseScope use kind =>
    have kept : kind.rename f = kind := by
      cases kind <;> simp_all [Call.handles, Call.checked, Call.unchecked, ScopeKind.parent?, ScopeKind.rename]
    have made : Alike f g (f ·) (newScope kind) (newScope (kind.rename f)) := .alloc (c := .scope) ⟨kind, []⟩
    rw [kept] at made
    exact made.map fun _ => rfl
  | grow call => cases call <;> contradiction
  | _ => contradiction

end Calls

end CSource
