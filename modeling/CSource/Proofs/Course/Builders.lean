import CSource.Proofs.Course
import CSource.Proofs.Closed

/-!
The course of the actions that make nodes, and of those that give a node one more branch, case, handler, region or
body. A scope that is made on request is made at the first request only.
-/

namespace CSource

open Build

/-- The node can still be given the scope that is made on the first request. -/
def Node.lacksBody : (c : Category) → Node c → Bool
  | .type, .aggregate data => data.defaultScope.isNone
  | .decl, .function data => data.body.isNone
  | .stmt, .ifElse data => data.otherwise.isNone
  | .directive, .conditional data => data.otherwise.isNone
  | _, _ => false

def Arena.lacksBody (a : Arena) {c : Category} (h : Handle c) : Bool := (a.node h).toOption.any (Node.lacksBody c)

section Reads

variable {trust : Prop} {a b : Arena} {last : Arena → Arena → Prop} {β : Type} {post : β → Prop}

theorem Stocks.lacksBody (stocks : Stocks a b) {c : Category} {h : Handle c} {n : Node c} (lacks : a.lacksBody h = true)
    (found : b.node h = .ok n) : Node.lacksBody c n = true := by
  unfold Arena.lacksBody at lacks
  cases here : a.node h with
  | error cause =>
    rw [here] at lacks
    contradiction
  | ok m =>
    rw [here] at lacks
    cases Except.ok.inj (found.symm.trans (stocks.keepsNode here))
    exact lacks

theorem Stocks.trusts (stocks : Stocks a b) {s : Slot} (has : trust → a.Has s) : trust → b.Has s :=
  fun trusted => stocks.keepsHas (has trusted)

namespace Course

theorem idle {m : Build β} (first : Course trust a Eq m post) : Course trust a Acts m post := by
  refine first.conclude fun b c same => ?_
  subst same
  exact .rest

theorem readNode {c : Category} {h : Handle c} {shape : Shape} {f : Node c → Build β}
    (has : trust → a.Has (h.as shape))
    (rest : ∀ b n, Stocks a b → b.node h = .ok n → (trust → shape.accepts c n = true) →
      Course trust b last (f n) post) :
    Course trust a last (Build.read (·.node h) >>= f) post := by
  refine .read (fun trusted b cause stocks refused => ?_)
    fun b n stocks found => rest b n stocks found fun trusted => ?_
  · obtain ⟨n, found, _⟩ := (stocks.trusts has trusted).found
    cases refused.symm.trans found
  · obtain ⟨m, here, accepted⟩ := (stocks.trusts has trusted).found
    cases Except.ok.inj (found.symm.trans here)
    exact accepted

theorem functionTyped {d : DeclRef} (has : trust → a.Has (d.as (.role .function))) :
    trust → ∀ b cause, Stocks a b → b.functionAt d = .error cause → cause.isMistyped = false := by
  intro trusted b cause stocks refused
  obtain ⟨n, found, accepted⟩ := (stocks.trusts has trusted).found
  cases n <;> try contradiction
  cases refused.symm.trans (functionAtIff.mpr found)

theorem readFunction {d : DeclRef} {f : FuncDecl → Build β} (has : trust → a.Has (d.as (.role .function)))
    (rest : ∀ b data, Stocks a b → b.node d = .ok (.function data) → Course trust b last (f data) post) :
    Course trust a last (Build.read (·.functionAt d) >>= f) post :=
  .read (functionTyped has) fun b data stocks found => rest b data stocks (functionAtIff.mp found)

theorem aggregateTyped {ty : TypeRef} (has : trust → a.Has (ty.as .aggregate)) :
    trust → ∀ b cause, Stocks a b → b.aggregateAt ty = .error cause → cause.isMistyped = false := by
  intro trusted b cause stocks refused
  obtain ⟨data, found⟩ := (stocks.trusts has trusted).aggregate
  cases refused.symm.trans (aggregateAtIff.mpr found)

theorem readAggregate {ty : TypeRef} {f : Aggregate → Build β} (has : trust → a.Has (ty.as .aggregate))
    (rest : ∀ b data, Stocks a b → b.node ty = .ok (.aggregate data) → Course trust b last (f data) post) :
    Course trust a last (Build.read (·.aggregateAt ty) >>= f) post :=
  .read (aggregateTyped has) fun b data stocks found => rest b data stocks (aggregateAtIff.mp found)

theorem scopeReadNode {kind : ScopeKind} {c : Category} {h : Handle c} {shape : Shape}
    {k : ScopeRef → Node c → Build β} (inner : c ≠ .scope) (has : trust → a.Has (h.as shape))
    (rest : ∀ b n, Stocks a b → b.node h = .ok n → (trust → shape.accepts c n = true) →
      Course trust b last (Build.newScope kind >>= fun scope => k scope n) post) :
    Course trust a last (Build.newScope kind >>= fun scope => Build.read (·.node h) >>= k scope) post := by
  refine .scopeRead (fun b n => ?_) (fun trusted b cause stocks refused => ?_)
    fun b n stocks found => rest b n stocks found fun trusted => ?_
  · unfold Arena.node Arena.owns
    rw [Arena.nodesPushOther b inner.symm, Arena.numberPush]
  · obtain ⟨n, found, _⟩ := (stocks.trusts has trusted).found
    cases refused.symm.trans found
  · obtain ⟨m, here, accepted⟩ := (stocks.trusts has trusted).found
    cases Except.ok.inj (found.symm.trans here)
    exact accepted

end Course

end Reads

section Factories

variable {trust : Prop} {a : Arena}

theorem tagCourse {ty : TypeNode} {decl : TypeRef → DeclNode} {β : Type} {g : TypeRef → DeclRef → β}
    {post : β → Prop} (plain : ∀ self, ty.bodies self = []) (bare : ∀ t, (decl t).bodies = [])
    (blank : ∀ t, Node.Blank .decl (decl t)) (holds : ∀ t d, a.Beyond d.ref → post (g t d)) :
    Course trust a Eq (alloc .type ty >>= fun t => alloc .decl (decl t) >>= fun d => pure (g t d)) post :=
  .bind (.alloc (c := .type) plain trivial) fun t _ =>
    (Course.alloc (c := .decl) (fun _ => bare t) (blank t)).map fun d => holds t d

theorem newAggregateCourse (kind : AggregateKind) (name : QualName) :
    Course trust a Eq (newAggregate kind name) fun c => a.Beyond c.decl.ref :=
  .vet (.requireIf _ _) (tagCourse (fun _ => rfl) (fun _ => rfl) (fun _ => trivial) fun _ _ => id)

theorem newEnumCourse (name : QualName) (key : Option EnumKey) :
    Course trust a Eq (newEnum name key) fun e => a.Beyond e.decl.ref :=
  .vet (.requireIf _ _) (tagCourse (fun _ => rfl) (fun _ => rfl) (fun _ => trivial) fun _ _ => id)

theorem newSynonymCourse {name : QualName} {aliased : TypeRef} {declare : TypeRef → DeclNode}
    (bare : ∀ t, (declare t).bodies = []) (blank : ∀ t, Node.Blank .decl (declare t)) :
    Course trust a Eq (newSynonym name aliased declare) fun r => a.Beyond r.1.ref :=
  .vet (.own _) (tagCourse (fun _ => rfl) bare blank fun _ _ => id)

theorem newVarCourse {name : QualName} {ty : TypeRef} {init : Option ExprRef} {shape : VarShape} :
    Course trust a Eq (newVar name ty init shape) fun d => a.Beyond d.ref :=
  .vet (.own _) (.vet (.ownOption _) (.alloc (fun _ => rfl) trivial))

theorem arrayVarCourse {name : QualName} {ty : TypeRef} {sizes : List ExprRef} {init : Option ExprRef} :
    Course trust a Eq (arrayVarDecl name ty sizes init) fun d => a.Beyond d.ref :=
  .vet (.ownEach _) newVarCourse

theorem constructedVarCourse {name : QualName} {ty : TypeRef} {args : List ExprRef} {braced : Bool} :
    Course trust a Eq (constructedVarDecl name ty args braced) fun d => a.Beyond d.ref :=
  .vet (.require _) (.vet (.ownEach _) newVarCourse)

theorem newFunctionCourse {name : QualName} {ret : Option TypeRef} {params : List DeclRef} {variadic : Bool}
    {lifecycle : Lifecycle} {kind : FuncKind} {parent : Option TypeRef} :
    Course trust a Eq (newFunction name ret params variadic lifecycle kind parent) fun f => a.Beyond f.handle.ref := by
  rw [newFunctionEq]
  refine .vet (.ownOption _) (.vet (.ownEach _) ?_)
  unfold startingBody
  split
  · rw [map_eq_pure_bind, bind_assoc]
    simp only [pure_bind]
    exact .owner (fun _ _ => rfl) (fun _ => rfl) fun _ _ _ beyond => .give beyond
  · rw [pure_bind]
    exact .map (.alloc (fun _ => rfl) rfl) fun _ => id

theorem templateDeclCourse {params : List DeclRef} {inner : DeclRef} :
    Course trust a Eq (templateDecl params inner) fun d => a.Beyond d.ref :=
  .vet (.require _) (.vet (.ownEach _) (.vet (.own _) (.alloc (fun _ => rfl) trivial)))

theorem rawTemplateDeclCourse {name : QualName} :
    Course trust a Eq (rawTemplateDecl name) fun d => a.Beyond d.ref :=
  .vet (.require _) (.bind (.alloc (c := .decl) (fun _ => rfl) trivial) fun _ _ => .alloc (fun _ => rfl) trivial)

theorem instantiationTypeCourse {template : DeclRef} {args : List TemplateArg} :
    Course trust a Eq (instantiationType template args) fun _ => True := by
  refine .vet (.require _) (.vet (.own _) (.vet (.ownArgs _) ?_))
  exact (Course.alloc (c := .type) (fun _ => rfl) trivial).weaken fun _ _ => trivial

theorem instantiationExprCourse {template : DeclRef} {args : List TemplateArg} :
    Course trust a Eq (instantiationExpr template args) fun x => a.Beyond x.ref :=
  .vet (.require _) (.vet (.own _) (.vet (.ownArgs _) (.alloc (fun _ => rfl) trivial)))

theorem subscriptExprCourse {base index : ExprRef} :
    Course trust a Eq (subscriptExpr base index) fun x => a.Beyond x.ref :=
  .vet (.own _) (.vet (.own _) (.alloc (fun _ => rfl) trivial))

theorem parenExprCourse {inner : ExprRef} : Course trust a Eq (parenExpr inner) fun x => a.Beyond x.ref :=
  .vet (.own _) (.alloc (fun _ => rfl) trivial)

theorem typeExprCourse {ty : TypeRef} : Course trust a Eq (typeExpr ty) fun x => a.Beyond x.ref :=
  .vet (.own _) (.alloc (fun _ => rfl) trivial)

theorem callExprCourse {callee : ExprRef} {args : List ExprRef} :
    Course trust a Eq (callExpr callee args) fun x => a.Beyond x.ref :=
  .vet (.own _) (.vet (.ownEach _) (.alloc (fun _ => rfl) trivial))

theorem binaryExprCourse {lhs rhs : ExprRef} {op : String} :
    Course trust a Eq (binaryExpr lhs op rhs) fun x => a.Beyond x.ref :=
  .vet (.own _) (.vet (.own _) (.alloc (fun _ => rfl) trivial))

theorem deleteExprCourse {operand : ExprRef} {array : Bool} :
    Course trust a Eq (deleteExpr operand array) fun x => a.Beyond x.ref :=
  .vet (.require _) (.vet (.own _) (.alloc (fun _ => rfl) trivial))

theorem rawExprCourse {text : String} : Course trust a Eq (rawExpr text) fun x => a.Beyond x.ref :=
  .alloc (fun _ => rfl) trivial

theorem literalExprCourse (l : Literal) : Course trust a Eq (literalExpr l) fun x => a.Beyond x.ref :=
  fun b stocks =>
    have written : Course trust a Eq (rawExpr (l.text b.dialect)) _ := rawExprCourse
    written b stocks

theorem operandCourse (x : Operand) : Course trust a Eq (operand x) fun y => a.Beyond y.ref := by
  cases x with
  | literal l => exact literalExprCourse l
  | ident => exact rawExprCourse
  | qualName => exact .vet (.require _) (.alloc (fun _ => rfl) trivial)
  | expr => exact parenExprCourse
  | var => exact .vet (.own _) (.alloc (fun _ => rfl) trivial)

theorem operandsCourse (xs : List Operand) : Course trust a Eq (xs.mapM operand) fun _ => True := by
  induction xs with
  | nil => exact .give trivial
  | cons x xs ih =>
    rw [List.mapM_cons]
    exact .bind (operandCourse x) fun _ _ => ih.map fun _ _ => trivial

theorem subscriptsCourse (base : ExprRef) (indices : List Operand) :
    Course trust a Eq (subscripts base indices) fun _ => True := by
  induction indices generalizing base with
  | nil => exact .give trivial
  | cons index rest ih =>
    refine .bind (operandCourse index) fun i _ => .bind subscriptExprCourse fun x _ => ih x

end Factories

section Growth

variable {trust : Prop} {a : Arena}

theorem modifyAggregateCourse {ty : TypeRef} {f : Aggregate → Aggregate} (has : trust → a.Has (ty.as .aggregate))
    (same : ∀ data, (f data).regions = data.regions) : Course trust a Acts (modifyAggregate ty f) fun _ => True := by
  refine .readAggregate has fun b data _ found => .grow nofun found ?_
  simp only [Node.bodies, TypeNode.bodies, Aggregate.bodies, same]

theorem modifyEnumCourse {ty : TypeRef} {f : Enumeration → Enumeration} (has : trust → a.Has (ty.as .enumeration)) :
    Course trust a Acts (modifyEnum ty f) fun _ => True := by
  refine .readNode has fun b n _ found fits => ?_
  cases n <;> first
    | exact .throw fun trusted => absurd (fits trusted) Bool.false_ne_true
    | exact .grow nofun found rfl

theorem regionCourse {c : ClassRef} (access : Option Access) (has : trust → a.Has (c.ty.as .aggregate)) :
    Course trust a Acts
      (newScope (.members c.ty access.isSome) >>= fun scope =>
        modifyAggregate c.ty (fun d => { d with regions := d.regions ++ [⟨access, scope⟩] }) >>= fun _ =>
          pure ⟨.member, scope⟩)
      fun p : Place => a.Beyond p.scope.ref := by
  simp only [modifyAggregate, bind_assoc]
  refine .scopeRead (fun b n => ?_) (Course.aggregateTyped has) fun b data stocks found => ?_
  · unfold Arena.aggregateAt Arena.node Arena.owns
    rw [Arena.nodesPushOther b (by decide), Arena.numberPush]
  · refine .house nofun (aggregateAtIff.mp found) (fun scope => ?_) fun _ => stocks.beyond
    simp only [Node.bodies, TypeNode.bodies, Aggregate.bodies, List.map_append, List.map_cons, List.map_nil]
    exact List.perm_append_singleton ..

theorem membersCourse {c : ClassRef} (has : trust → a.Has (c.ty.as .aggregate)) :
    Course trust a Acts (members c) fun p => a.lacksBody c.ty = true → a.Beyond p.scope.ref := by
  refine .readAggregate has fun b data stocks found => ?_
  cases opened : data.defaultScope with
  | some scope =>
    refine .pure (fun _ => .rest) fun lacks => ?_
    have closed := stocks.lacksBody lacks found
    simp [Node.lacksBody, opened] at closed
  | none =>
    refine (regionCourse none (stocks.trusts has)).weaken fun p beyond _ => stocks.beyond beyond

theorem functionBodyCourse {f : FunctionRef} (has : trust → a.Has (f.handle.as (.role .function))) :
    Course trust a Acts (functionBody f) fun p => a.lacksBody f.handle = true → a.Beyond p.scope.ref := by
  refine .readFunction has fun b data stocks found => ?_
  dsimp only
  split
  · exact .throwBind fun _ => rfl
  split
  · exact .throwBind fun _ => rfl
  cases filled : data.body with
  | some body =>
    refine .pure (fun _ => .rest) fun lacks => ?_
    have bodiless := stocks.lacksBody lacks found
    simp [Node.lacksBody, filled] at bodiless
  | none =>
    refine .house nofun found (fun scope => ?_) fun _ beyond _ => stocks.beyond beyond
    simp [Node.bodies, DeclNode.bodies, functionBodies, filled]

theorem modifyFunctionCourse {f : FunctionRef} {data new : FuncDecl} (found : a.node f.handle = .ok (.function data))
    (same : new.body = data.body) : Course trust a Acts (update f.handle (.function new)) fun _ => True := by
  refine .grow nofun found ?_
  simp only [Node.bodies, DeclNode.bodies, same]

theorem setVarQualifiersCourse {d : DeclRef} {quals : VarQualifiers} (has : trust → a.Has d.plain) :
    Course trust a Acts (setVarQualifiers d quals) fun _ => True := by
  refine .vet (.requireIf _ _) (.vet (.requireIf _ _) (.read (fun trusted b cause stocks refused => ?_) ?_))
  · obtain ⟨n, found, _⟩ := (stocks.trusts has trusted).found
    unfold Arena.variableAt at refused
    rw [found] at refused
    cases n <;> cases refused <;> rfl
  · exact fun b data _ found => .grow nofun (variableAtIff.mp found) rfl

theorem setMethodQualifiersCourse {f : FunctionRef} {quals : MethodQualifiers}
    (has : trust → a.Has (f.handle.as (.role .function))) :
    Course trust a Acts (setMethodQualifiers f quals) fun _ => True := by
  refine .readFunction has fun b data _ found => ?_
  dsimp only
  split
  · split
    · exact .throwBind fun _ => rfl
    · cases data.method with
      | none => exact .throw fun _ => rfl
      | some method => exact modifyFunctionCourse found rfl
  · cases data.method with
    | none => exact .throw fun _ => rfl
    | some method => exact modifyFunctionCourse found rfl

theorem addedBranch (first scope : ScopeRef) (branches otherwise : List ScopeRef) :
    (first :: (branches ++ [scope]) ++ otherwise).Perm (scope :: (first :: branches ++ otherwise)) := by
  have split : first :: (branches ++ [scope]) ++ otherwise = (first :: branches) ++ scope :: otherwise := by simp
  rw [split]
  exact List.perm_middle

theorem functionBodiesMore {xs ys : List ScopeRef} {scope : ScopeRef} (more : xs.Perm (scope :: ys)) :
    (functionBodies xs).Perm (⟨scope, .function⟩ :: functionBodies ys) :=
  more.map _

theorem ifBranchCourse {s : Typed .ifElse} {f : ScopeRef → IfStmt → IfStmt}
    (has : trust → a.Has (s.handle.as (.role .ifElse)))
    (more : ∀ b data, Stocks a b → b.node s.handle = .ok (.ifElse data) → ∀ scope,
      (f scope data).scopes.Perm (scope :: data.scopes)) :
    Course trust a Acts (newBody >>= fun body => modifyIf s (f body) >>= fun _ => pure ⟨.function, body⟩)
      fun p : Place => a.Beyond p.scope.ref := by
  simp only [modifyIf, bind_assoc]
  refine .scopeReadNode nofun has fun b n stocks found fits => ?_
  cases n <;> first
    | exact .bind .newScope fun _ _ => .throwBind fun trusted => absurd (fits trusted) Bool.false_ne_true
    | exact .house nofun found (fun scope => functionBodiesMore (more b _ stocks found scope)) fun _ => stocks.beyond

theorem elseBranchCourse {s : Typed .ifElse} (has : trust → a.Has (s.handle.as (.role .ifElse))) :
    Course trust a Acts (elseBranch s) fun p => a.lacksBody s.handle = true → a.Beyond p.scope.ref := by
  refine .readNode has fun b n stocks found fits => ?_
  cases n with
  | ifElse data =>
    cases otherwise : data.otherwise with
    | some scope =>
      dsimp only
      rw [otherwise]
      refine .pure (fun _ => .rest) fun lacks => ?_
      have elseless := stocks.lacksBody lacks found
      simp [Node.lacksBody, otherwise] at elseless
    | none =>
      dsimp only
      rw [otherwise]
      refine (ifBranchCourse (stocks.trusts has) fun c d later again scope => ?_).weaken
        fun p beyond _ => stocks.beyond beyond
      cases Except.ok.inj (again.symm.trans (later.keepsNode found))
      simp only [IfStmt.scopes, otherwise, Option.toList_some, Option.toList_none, List.append_nil]
      exact List.perm_append_singleton ..
  | _ => exact .throw fun trusted => absurd (fits trusted) Bool.false_ne_true

theorem addElseIfCourse {s : Typed .ifElse} {init : Option DeclRef} {cond : ExprRef}
    (has : trust → a.Has (s.handle.as (.role .ifElse))) :
    Course trust a Acts (addElseIf s init cond) fun p => a.Beyond p.scope.ref := by
  refine .vet (.requireIf _ _) (.vet (.ownOption _) (.vet (.own _) (ifBranchCourse has fun _ data _ _ scope => ?_)))
  simp only [IfStmt.scopes, List.map_append, List.map_cons, List.map_nil]
  exact addedBranch ..

theorem addCaseCourse {s : Typed .switch} {value : Option ExprRef} {fallthrough : Bool}
    (has : trust → a.Has (s.handle.as (.role .switch))) :
    Course trust a Acts (addCase s value fallthrough) fun label => a.Beyond label.handle.ref := by
  refine .vet (.ownOption _) (.owner (fun _ _ => rfl) (fun _ => trivial) fun scope label _ beyond => ?_)
  refine .readNode has fun b n _ found fits => ?_
  cases n <;> first
    | exact .throwBind fun trusted => absurd (fits trusted) Bool.false_ne_true
    | exact .map (.grow nofun found rfl) fun _ _ => beyond

theorem addHandlerCourse {s : Typed .tryCatch} {decl : Option DeclRef}
    (has : trust → a.Has (s.handle.as (.role .tryCatch))) :
    Course trust a Acts (addHandler s decl) fun p => a.Beyond p.scope.ref := by
  refine .vet (.ownOption _) (.scopeReadNode nofun has fun b n stocks found fits => ?_)
  cases n with
  | tryCatch data =>
    refine .house nofun found (fun scope => functionBodiesMore ?_) fun _ => stocks.beyond
    simp only [List.map_append, List.map_cons, List.map_nil]
    rw [← List.cons_append]
    exact List.perm_append_singleton ..
  | _ => exact .bind .newScope fun _ _ => .throwBind fun trusted => absurd (fits trusted) Bool.false_ne_true

theorem conditionalCourse {β : Type} {branch : BranchKind} {c : Typed (.conditional branch)} {f : Conditional → Build β}
    {last : Arena → Arena → Prop} {post : β → Prop} (has : trust → a.Has (c.handle.as (.role (.conditional branch))))
    (rest : ∀ b data, Stocks a b → b.node c.handle = .ok (.conditional data) → Course trust b last (f data) post) :
    Course trust a last (readConditional c >>= f) post := by
  unfold readConditional
  rw [bind_assoc]
  refine .readNode has fun b n stocks found fits => ?_
  cases n with
  | conditional data =>
    rw [pure_bind]
    exact rest b data stocks found
  | _ => exact .throwBind fun trusted => absurd (fits trusted) Bool.false_ne_true

theorem branchBodies {data new : Conditional} {h : DirectiveRef} {scope : ScopeRef} (same : new.branch = data.branch)
    (more : new.scopes.Perm (scope :: data.scopes)) :
    (Node.bodies .directive h (.conditional new)).Perm
      (⟨scope, data.branch.scopeKind⟩ :: Node.bodies .directive h (.conditional data)) := by
  simp only [Node.bodies, DirectiveNode.bodies, same]
  exact more.map (⟨·, data.branch.scopeKind⟩ : ScopeRef → Body)

theorem addElifCourse {branch : BranchKind} {c : Typed (.conditional branch)} {cond : ExprRef}
    (has : trust → a.Has (c.handle.as (.role (.conditional branch)))) :
    Course trust a Acts (addElif c cond) fun p => a.Beyond p.scope.ref := by
  refine .vet (.own _) (conditionalCourse has fun b data stocks found => ?_)
  refine .house nofun found (fun scope => branchBodies rfl ?_) fun _ => stocks.beyond
  simp only [Conditional.scopes, List.map_append, List.map_cons, List.map_nil]
  exact addedBranch ..

theorem elseOfConditionalCourse {branch : BranchKind} {c : Typed (.conditional branch)}
    (has : trust → a.Has (c.handle.as (.role (.conditional branch)))) :
    Course trust a Acts (elseOfConditional c) fun p => a.lacksBody c.handle = true → a.Beyond p.scope.ref := by
  refine conditionalCourse has fun b data stocks found => ?_
  cases otherwise : data.otherwise with
  | some scope =>
    refine .pure (fun _ => .rest) fun lacks => ?_
    have elseless := stocks.lacksBody lacks found
    simp [Node.lacksBody, otherwise] at elseless
  | none =>
    refine .house nofun found (fun scope => branchBodies rfl ?_) fun _ beyond _ => stocks.beyond beyond
    simp only [Conditional.scopes, otherwise, Option.toList_some, Option.toList_none, List.append_nil]
    exact List.perm_append_singleton ..

end Growth

end CSource
