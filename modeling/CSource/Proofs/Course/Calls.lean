import CSource.Proofs.Course.Builders

/-!
The course of every call: which calls stock the arena only, which of them act on a node that was there, and which
fill a scope. Every declaration, expression, statement, directive and scope that a call hands out as its own is new.
-/

namespace CSource

open Build

def TypeCall.allots (a : Arena) : TypeCall → Bool
  | members c => a.lacksBody c.ty
  | _ => true

def DeclCall.allots (a : Arena) : DeclCall → Bool
  | body f => a.lacksBody f.handle
  | _ => true

def GrowCall.allots (a : Arena) : GrowCall → Bool
  | elseBranch s => a.lacksBody s.handle
  | elseOfConditional _ c => a.lacksBody c.handle
  | _ => true

def AnyCall.allots : AnyCall → Bool
  | entry _ | decl _ | declStmt _ | stmt _ | directive _ => false
  | _ => true

def TopLevelCall.allots : TopLevelCall → Bool
  | defineFunction _ => false
  | _ => true

namespace Call

/-- What the call hands out is made by it, unless it is a type. The other calls put what they were given and give it
back, or give a scope that was made at an earlier request. -/
def allots (a : Arena) : Call → Bool
  | type call => call.allots a
  | decl call => call.allots a
  | grow call => call.allots a
  | putAny _ call => call.allots
  | putTopLevel _ _ call => call.allots
  | _ => true

def Last (call : Call) : Arena → Arena → Prop :=
  match call.filled? with
  | some scope => Fills scope
  | none => Acts

end Call

def Answer.New (a : Arena) (answer : Answer) : Prop :=
  ∀ s ∈ slotsOf answer.issued, s.ref.category ≠ .type → a.Beyond s.ref

section Answers

variable {a : Arena}

theorem newNode {c : Category} {h : Handle c} (beyond : a.Beyond h.ref) : (Answer.handle (.node c h)).New a :=
  List.forall_mem_singleton.mpr fun _ => beyond

theorem newNothing : Answer.nothing.New a := List.forall_mem_nil _

theorem newType {ty : TypeRef} : (Answer.type ty).New a :=
  List.forall_mem_singleton.mpr fun ne => absurd rfl ne

theorem newTyped {r : Role} {h : Typed r} (beyond : a.Beyond h.handle.ref) : (Answer.typed h).New a :=
  List.forall_mem_singleton.mpr fun _ => beyond

theorem newPlace {p : Place} (beyond : a.Beyond p.scope.ref) : (Answer.place p).New a :=
  List.forall_mem_singleton.mpr fun _ => beyond

theorem newClass {c : ClassRef} (beyond : a.Beyond c.decl.ref) : (Answer.aggregate c).New a :=
  List.forall_mem_cons.mpr ⟨fun ne => absurd rfl ne, List.forall_mem_singleton.mpr fun _ => beyond⟩

theorem newEnumeration {e : EnumRef} (beyond : a.Beyond e.decl.ref) : (Answer.enumeration e).New a :=
  List.forall_mem_cons.mpr ⟨fun ne => absurd rfl ne, List.forall_mem_singleton.mpr fun _ => beyond⟩

theorem newTemplate {template : DeclRef} {inner : Issued} (beyond : a.Beyond template.ref)
    (fresh : (Answer.handle inner).New a) : (Answer.templated template inner).New a := by
  intro s mem
  rcases List.mem_append.mp mem with listed | none
  · rcases List.mem_cons.mp listed with rfl | inside
    · exact fun _ => beyond
    · exact fresh s (List.mem_append_left _ inside)
  · contradiction

end Answers

section Filling

variable {trust : Prop} {a : Arena} {scope : ScopeRef} {shape : Shape}

theorem pushEntryCourse {e : Entry} (has : trust → a.Has (scope.as shape)) :
    Course trust a (Fills scope) (pushEntry scope e) fun _ => True := by
  refine .vet (.ownEntry e) (.readNode has fun b n _ found _ c stocks => ⟨⟨c, stocks, c, .inl rfl, ?_⟩, trivial⟩)
  exact ⟨n, e, stocks.keepsNode found, rfl⟩

theorem pushDeclCourse {d : DeclRef} (has : trust → a.Has (scope.as shape)) :
    Course trust a (Fills scope) (pushDecl scope d) fun x => x = d :=
  .map (pushEntryCourse has) fun _ _ => rfl

theorem pushStmtCourse {s : StmtRef} (has : trust → a.Has (scope.as shape)) :
    Course trust a (Fills scope) (pushStmt scope s) fun x => x = s :=
  .map (pushEntryCourse has) fun _ _ => rfl

theorem pushDirectiveCourse {d : DirectiveRef} (has : trust → a.Has (scope.as shape)) :
    Course trust a (Fills scope) (pushDirective scope d) fun x => x = d :=
  .map (pushEntryCourse has) fun _ _ => rfl

theorem pushDeclStmtCourse {d : DeclRef} (has : trust → a.Has (scope.as shape)) :
    Course trust a (Fills scope) (pushDeclStmt scope d) fun x => x = d :=
  .bind (.vet (.own _) (.alloc (fun _ => rfl) trivial)) fun _ _ => .map (pushEntryCourse has) fun _ _ => rfl

theorem placeStmtCourse {n : StmtNode} (bare : n.bodies = []) (has : trust → a.Has (scope.as shape)) :
    Course trust a (Fills scope) (placeStmt scope n) fun s => a.Beyond s.ref :=
  .bind (.alloc (fun _ => bare) trivial) fun _ beyond => .map (pushEntryCourse has) fun _ _ => beyond

theorem placeDirectiveCourse {n : DirectiveNode} (bare : n.bodies = []) (has : trust → a.Has (scope.as shape)) :
    Course trust a (Fills scope) (placeDirective scope n) fun d => a.Beyond d.ref :=
  .bind (.alloc (fun _ => bare) trivial) fun _ beyond => .map (pushEntryCourse has) fun _ _ => beyond

theorem bodyStmtCourse {β : Type} {n : ScopeRef → StmtNode} {g : ScopeRef → StmtRef → β} {post : β → Prop}
    (owns : ∀ body, (n body).bodies = functionBodies [body]) (has : trust → a.Has (scope.as shape))
    (holds : ∀ body s, a.Beyond body.ref → a.Beyond s.ref → post (g body s)) :
    Course trust a (Fills scope) (newBody >>= fun body => placeStmt scope (n body) >>= fun s => pure (g body s))
      post := by
  simp only [placeStmt, bind_assoc]
  refine .owner (fun _ => owns) (fun _ => trivial) fun body s first second => ?_
  exact .map (pushStmtCourse has) fun x same => same ▸ holds body s first second

theorem bodyDirectiveCourse {β : Type} {kind : ScopeKind} {n : ScopeRef → DirectiveNode} {g : DirectiveRef → β}
    {post : β → Prop} (owns : ∀ body, (n body).bodies = [⟨body, kind⟩]) (has : trust → a.Has (scope.as shape))
    (holds : ∀ d, a.Beyond d.ref → post (g d)) :
    Course trust a (Fills scope) (newScope kind >>= fun body => placeDirective scope (n body) >>= fun d => pure (g d))
      post := by
  simp only [placeDirective, bind_assoc]
  refine .owner (fun _ => owns) (fun _ => trivial) fun _ d _ beyond => ?_
  exact .map (pushDirectiveCourse has) fun x same => same ▸ holds d beyond

theorem placeExprCourse {e : ExprRef} (has : trust → a.Has (scope.as shape)) :
    Course trust a (Fills scope) (placeExpr scope e) fun s => a.Beyond s.ref :=
  .vet (.own _) (placeStmtCourse rfl has)

theorem placeForCourse {init : Option StmtRef} {cond step : Option ExprRef} (has : trust → a.Has (scope.as shape)) :
    Course trust a (Fills scope) (placeFor scope init cond step) fun s => a.Beyond s.handle.ref :=
  .vet (.ownOption _) (.vet (.ownOption _) (.vet (.ownOption _) (bodyStmtCourse (fun _ => rfl) has fun _ _ _ => id)))

theorem placeNamedCallCourse {callee : String} {args : List ExprRef} (has : trust → a.Has (scope.as shape)) :
    Course trust a (Fills scope) (placeNamedCall scope callee args) fun s => a.Beyond s.ref :=
  .bind rawExprCourse fun _ _ => .bind callExprCourse fun _ _ => placeExprCourse has

theorem placeFunctionCourse {lifecycle : Lifecycle} {f : FunctionRef} (has : trust → a.Has (scope.as shape)) :
    Course trust a (Fills scope) (placeFunction scope lifecycle f) fun g => g = f := by
  unfold placeFunction
  split
  · exact .bind (.alloc (fun _ => rfl) trivial) fun _ _ => .discard (pushDeclCourse has) rfl
  · exact .discard (pushDeclCourse has) rfl

theorem parentOfCourse (closed : trust → a.Closed) (has : trust → a.Has (scope.as (.place .member))) :
    Course trust a Eq (parentOf scope) fun parent => trust → a.Has (parent.as .aggregate) := by
  refine .readNode has fun b n stocks found fits => ?_
  obtain ⟨kind, entries⟩ := n
  cases kind with
  | members parent labeled =>
    refine .give fun trusted => ?_
    obtain ⟨m, here, _⟩ := (has trusted).found
    cases Except.ok.inj ((stocks.keepsNode here).symm.trans found)
    exact (closed trusted).slot here (List.mem_cons_self ..)
  | _ => exact .throw fun trusted => absurd (fits trusted) Bool.false_ne_true

theorem classNameOfCourse (closed : trust → a.Closed) (has : trust → a.Has (scope.as (.place .member))) :
    Course trust a Eq (classNameOf scope) fun _ => True := by
  refine .bind (parentOfCourse closed has) fun parent known => ?_
  refine .read (fun trusted b cause stocks refused => ?_) fun _ _ _ _ => .give trivial
  obtain ⟨name, named⟩ := (stocks.trusts known trusted).tagName (.inl rfl)
  cases refused.symm.trans named

theorem newMemberCourse {name : String} {ret : Option TypeRef} {params : List DeclRef} {variadic : Bool}
    {lifecycle : Lifecycle} {kind : FuncKind} (closed : trust → a.Closed)
    (has : trust → a.Has (scope.as (.place .member))) :
    Course trust a Eq (newMember scope name ret params variadic lifecycle kind) fun f => a.Beyond f.handle.ref :=
  .vet (.require _) (.bind (parentOfCourse closed has) fun _ _ => newFunctionCourse)

theorem defineFunctionCourse {f : FunctionRef} (here : trust → a.Has (scope.as shape))
    (has : trust → a.Has (f.handle.as (.role .function))) :
    Course trust a (Fills scope) (defineFunction scope f) fun _ => True := by
  refine .vet (.own _) ?_
  unfold markDefined
  rw [bind_assoc]
  refine .readFunction has fun b data stocks found => ?_
  dsimp only
  split
  · split
    · exact .throwBind fun _ => rfl
    · -- the mark is set first, and stays if the scope is then refused
      intro c later
      have known := later.keepsNode found
      have marked : Defines c (c.replace f.handle (.function { data with defined := true })) := ⟨_, _, known, rfl⟩
      have same : (c.replace f.handle (.function { data with defined := true })).node scope = c.node scope :=
        Arena.nodeReplaceOther (nodeOwn known) (by simp [Handle.ref])
      rw [EStateM.run_bind, runUpdate]
      dsimp only
      rw [Account.discardBind, EStateM.run_bind, pushDecl, EStateM.run_bind]
      cases there : c.node scope with
      | error cause =>
        rw [refusedPushEntry (.decl f.handle) (by simpa [Entry.ref, Handle.ref] using nodeOwn known) (same.trans there)]
        refine ⟨⟨c, later, .inr marked⟩, fun trusted => ?_⟩
        obtain ⟨n, found, _⟩ := ((stocks.trans later).keepsHas (here trusted)).found
        cases there.symm.trans found
      | ok n =>
        have still := same.trans there
        rw [runPushEntry (.decl f.handle) (by simpa [Entry.ref, Handle.ref] using nodeOwn known) still]
        exact ⟨⟨c, later, _, .inr marked, n, _, still, rfl⟩, trivial⟩
  · exact .throwBind fun _ => rfl

end Filling

section Calls

variable {trust : Prop} {a : Arena}

theorem slotsTrusted {i : Issued} {is : List Issued} (has : trust → ∀ s ∈ slotsOf (i :: is), a.Has s) {s : Slot}
    (mem : s ∈ i.slots) : trust → a.Has s :=
  fun trusted => has trusted s (List.mem_append_left _ mem)

theorem placeTrusted {p : Place} {is : List Issued} (has : trust → ∀ s ∈ slotsOf (.place p :: is), a.Has s) :
    trust → a.Has (p.scope.as (.place p.kind)) :=
  slotsTrusted has (List.mem_cons_self ..)

theorem TypeCall.course (call : TypeCall) (has : trust → ∀ s ∈ slotsOf call.checked, a.Has s) :
    Course trust a Acts call.perform fun answer => call.allots a = true → answer.New a := by
  have shared {m : Build TypeRef} {P : Prop} (made : Course trust a Eq m fun _ => True) :
      Course trust a Acts (Answer.type <$> m) fun answer => P → answer.New a :=
    (made.mapped fun _ _ _ => newType).idle
  have typed {n : TypeNode} (bare : ∀ self, n.bodies self = []) :
      Course trust a Eq (alloc .type n) fun _ => True := (Course.alloc bare trivial).weaken fun _ _ => trivial
  cases call with
  | primitive | raw => exact shared (.request .raw)
  | auto => exact shared (.vet (.require _) (.request .raw))
  | parameter => exact shared (.vet (.require _) (typed fun _ => rfl))
  | pointer => exact shared (.vet (.own _) (.request .pointer))
  | reference => exact shared (.vet (.require _) (.vet (.own _) (.request .reference)))
  | array => exact shared (.vet (.own _) (.vet (.ownEach _) (.request .array)))
  | function => exact shared (.vet (.own _) (.vet (.ownEach _) (typed fun _ => rfl)))
  | named | namedClass | namedEnum => exact shared (.vet (.own _) (.request .named))
  | instantiation => exact shared instantiationTypeCourse
  | rawInstantiation => exact shared (.bind rawTemplateDeclCourse fun _ _ => instantiationTypeCourse)
  | pack => exact shared (.vet (.require _) (.vet (.own _) (typed fun _ => rfl)))
  | newAggregate kind name => exact ((newAggregateCourse kind name).mapped fun _ beyond _ => newClass beyond).idle
  | newEnum name key => exact ((newEnumCourse name key).mapped fun _ beyond _ => newEnumeration beyond).idle
  | members c =>
    refine (membersCourse ?_).mapped fun _ fresh lacks => newPlace (fresh lacks)
    exact slotsTrusted has (List.mem_cons_self ..)
  | addRegion c access =>
    refine .mapped (.vet (.require _) (regionCourse (some access) ?_)) fun _ beyond _ => newPlace beyond
    exact slotsTrusted has (List.mem_cons_self ..)
  | addBase c access base =>
    refine .silently (.vet (.require _) (.vet (.own _) (modifyAggregateCourse ?_ fun _ => rfl))) fun _ => newNothing
    exact slotsTrusted has (List.mem_cons_self ..)
  | setFinal c isFinal =>
    refine .silently (.vet (.require _) (modifyAggregateCourse ?_ fun _ => rfl)) fun _ => newNothing
    exact slotsTrusted has (List.mem_cons_self ..)
  | addEnumMember e name value =>
    refine .silently (.vet (.ownOption _) (modifyEnumCourse ?_)) fun _ => newNothing
    exact slotsTrusted has (List.mem_cons_self ..)
  | setUnderlying e ty =>
    refine .silently (.vet (.own _) (modifyEnumCourse ?_)) fun _ => newNothing
    exact slotsTrusted has (List.mem_cons_self ..)
  | setEnumKey e key =>
    refine .silently (.vet (.require _) (modifyEnumCourse ?_)) fun _ => newNothing
    exact slotsTrusted has (List.mem_cons_self ..)
  | forwardClass | forwardEnum =>
    exact .idle (.mapped (.alloc (c := .decl) (fun _ => rfl) trivial) fun _ beyond _ => newNode beyond)

theorem DeclCall.course (call : DeclCall) (has : trust → ∀ s ∈ slotsOf call.checked, a.Has s) :
    Course trust a Acts call.perform fun answer => call.allots a = true → answer.New a := by
  have made {m : Build DeclRef} {P : Prop} (made : Course trust a Eq m fun d => a.Beyond d.ref) :
      Course trust a Acts (Answer.decl <$> m) fun answer => P → answer.New a :=
    (made.mapped fun _ beyond _ => newNode beyond).idle
  cases call with
  | raw => exact made (.alloc (fun _ => rfl) trivial)
  | var => exact made newVarCourse
  | arrayVar => exact made arrayVarCourse
  | constructedVar => exact made constructedVarCourse
  | function => exact .idle (newFunctionCourse.mapped fun _ beyond _ => newTyped beyond)
  | template => exact made templateDeclCourse
  | rawTemplate => exact made rawTemplateDeclCourse
  | setVarQualifiers d quals =>
    exact .silently (setVarQualifiersCourse (slotsTrusted has (List.mem_cons_self ..))) fun _ => newNothing
  | body f =>
    refine (functionBodyCourse ?_).mapped fun _ fresh lacks => newPlace (fresh lacks)
    exact slotsTrusted has (List.mem_cons_self ..)
  | setQualifiers f quals =>
    refine .silently (.vet (.requireIf _ _) (.readFunction ?_ fun b data _ found => ?_)) fun _ => newNothing
    · exact slotsTrusted has (List.mem_cons_self ..)
    · exact modifyFunctionCourse found rfl
  | setMethodQualifiers f quals =>
    exact .silently (setMethodQualifiersCourse (slotsTrusted has (List.mem_cons_self ..))) fun _ => newNothing
  | addMemberInit f member args =>
    refine .silently (.vet (.ownEach _) (.readFunction ?_ fun b data _ found => ?_)) fun _ => newNothing
    · exact slotsTrusted has (List.mem_cons_self ..)
    · dsimp only
      split
      · exact modifyFunctionCourse found rfl
      · exact .throwBind fun _ => rfl

theorem ExprCall.course (call : ExprCall) (has : trust → ∀ s ∈ slotsOf call.checked, a.Has s) :
    Course trust a Acts call.perform (·.New a) := by
  have made {m : Build ExprRef} (made : Course trust a Eq m fun x => a.Beyond x.ref) :
      Course trust a Acts (Answer.expr <$> m) (·.New a) := (made.mapped fun _ => newNode).idle
  have stored {n : ExprNode} (bare : n.bodies = []) : Course trust a Eq (alloc .expr n) fun x => a.Beyond x.ref :=
    .alloc (fun _ => bare) trivial
  cases call with
  | raw => exact made rawExprCourse
  | literal l => exact made (literalExprCourse l)
  | var | unary | postfixed | operator => exact made (.vet (.own _) (stored rfl))
  | typeName => exact made typeExprCourse
  | subscript => exact made subscriptExprCourse
  | call => exact made callExprCourse
  | binary | compare => exact made binaryExprCourse
  | ternary => exact made (.vet (.own _) (.vet (.own _) (.vet (.own _) (stored rfl))))
  | cast => exact made (.vet (.own _) (.vet (.own _) (stored rfl)))
  | paren => exact made parenExprCourse
  | initList | designated => exact made (.vet (.ownEach _) (stored rfl))
  | generic =>
    exact .idle (.answers (.vet (.require _) (.vet (.own _) (.map (stored rfl) fun _ beyond => newTyped beyond))))
  | addAssociation g ty value =>
    have typed : trust → a.Has (g.handle.as (.role .generic)) := slotsTrusted has (List.mem_cons_self ..)
    refine .silently (.vet (.ownOption _) (.vet (.own _) (.readNode typed fun b n _ found fits => ?_))) nofun
    cases n <;> first
      | exact .throw fun trusted => absurd (fits trusted) Bool.false_ne_true
      | exact .grow nofun found rfl
  | qualName => exact made (.vet (.require _) (stored rfl))
  | lambda =>
    refine .idle (.answers (.vet (.require _) (.vet (.ownEach _) (.vet (.ownOption _) ?_))))
    exact .owner (fun _ _ => rfl) (fun _ => trivial) fun _ _ _ beyond => .give (newTyped beyond)
  | new =>
    exact made (.vet (.require _) (.vet (.own _) (.vet (.ownEach _) (.vet (.ownOption _) (.vet (.ownOption _)
      (stored rfl))))))
  | delete => exact made deleteExprCourse
  | userLiteral | packExpansion => exact made (.vet (.require _) (.vet (.own _) (stored rfl)))
  | instantiation => exact made instantiationExprCourse
  | rawInstantiation => exact made (.bind rawTemplateDeclCourse fun _ _ => instantiationExprCourse)
  | fold => exact made (.vet (.require _) (.vet (.own _) (.vet (.ownFold _) (stored rfl))))
  | select => exact made (.bind rawExprCourse fun _ _ => binaryExprCourse)
  | sizeof | vaArg => exact made (.bind rawExprCourse fun _ _ => .bind typeExprCourse fun _ _ => callExprCourse)
  | short x => exact made (operandCourse x)
  | shortUnary op x | shortPostfix x op =>
    exact made (.bind (operandCourse x) fun _ _ => .bind (.vet (.own _) (stored rfl)) fun _ _ => parenExprCourse)
  | shortBinary lhs op rhs =>
    refine made (.bind (operandCourse lhs) fun _ _ => .bind (operandCourse rhs) fun _ _ => ?_)
    exact .bind binaryExprCourse fun _ _ => parenExprCourse
  | shortCall callee args =>
    refine made (.bind (operandCourse callee) fun _ _ => .bind (operandsCourse args) fun _ _ => ?_)
    exact .bind callExprCourse fun _ _ => parenExprCourse
  | shortIndex base indices =>
    refine made (.bind (operandCourse base) fun x _ => .bind (subscriptsCourse x indices) fun _ _ => ?_)
    exact parenExprCourse

theorem GrowCall.course (call : GrowCall) (has : trust → ∀ s ∈ slotsOf call.checked, a.Has s) :
    Course trust a Acts call.perform fun answer => call.allots a = true → answer.New a := by
  cases call with
  | addElseIf =>
    exact (addElseIfCourse (slotsTrusted has (List.mem_cons_self ..))).mapped fun _ beyond _ => newPlace beyond
  | elseBranch =>
    refine (elseBranchCourse ?_).mapped fun _ fresh lacks => newPlace (fresh lacks)
    exact slotsTrusted has (List.mem_cons_self ..)
  | addCase =>
    exact (addCaseCourse (slotsTrusted has (List.mem_cons_self ..))).mapped fun _ beyond _ => newTyped beyond
  | addHandler =>
    exact (addHandlerCourse (slotsTrusted has (List.mem_cons_self ..))).mapped fun _ beyond _ => newPlace beyond
  | addElif =>
    exact (addElifCourse (slotsTrusted has (List.mem_cons_self ..))).mapped fun _ beyond _ => newPlace beyond
  | elseOfConditional =>
    refine (elseOfConditionalCourse ?_).mapped fun _ fresh lacks => newPlace (fresh lacks)
    exact slotsTrusted has (List.mem_cons_self ..)

section Put

variable {scope : ScopeRef} {shape : Shape}

theorem putDeclCourse {m : Build DeclRef} (here : trust → a.Has (scope.as shape))
    (made : Course trust a Eq m fun d => a.Beyond d.ref) :
    Course trust a (Fills scope) (Answer.decl <$> (m >>= pushDeclStmt scope)) (·.New a) := by
  refine .mapped (.bind made fun d beyond => (pushDeclStmtCourse here).weaken fun x same => ?_) fun _ => newNode
  exact same ▸ beyond

theorem placedCourse {d : DeclRef} {β : Type} {x : β} {post : β → Prop} (here : trust → a.Has (scope.as shape))
    (holds : post x) :
    Course trust a (Fills scope) (Functor.discard (pushDeclStmt scope d) >>= fun _ => pure x) post :=
  .discard (pushDeclStmtCourse here) holds

theorem AnyCall.course (call : AnyCall) (here : trust → a.Has (scope.as shape)) :
    Course trust a (Fills scope) (call.perform scope) fun answer => call.allots = true → answer.New a := by
  have made {m : Build Answer} {P : Prop} (filled : Course trust a (Fills scope) m (·.New a)) :
      Course trust a (Fills scope) m fun answer => P → answer.New a := filled.weaken fun _ fresh _ => fresh
  cases call with
  | entry => exact .silently (pushEntryCourse here) nofun
  | decl => exact (pushDeclCourse here).mapped fun _ _ => nofun
  | declStmt => exact (pushDeclStmtCourse here).mapped fun _ _ => nofun
  | stmt => exact (pushStmtCourse here).mapped fun _ _ => nofun
  | directive => exact (pushDirectiveCourse here).mapped fun _ _ => nofun
  | raw =>
    refine .answers (.bind (.alloc (c := .decl) (fun _ => rfl) trivial) fun d beyond => ?_)
    exact (pushDeclCourse here).weaken fun x same _ => newNode (same ▸ beyond)
  | var => exact made (putDeclCourse here newVarCourse)
  | arrayVar => exact made (putDeclCourse here arrayVarCourse)
  | constructedVar => exact made (putDeclCourse here constructedVarCourse)
  | typeDef =>
    refine .answers (.bind (newSynonymCourse (fun _ => rfl) fun _ => trivial) fun r _ => ?_)
    exact placedCourse here fun _ => newType
  | usingType =>
    refine .answers (.vet (.require _) (.bind (newSynonymCourse (fun _ => rfl) fun _ => trivial) fun r _ => ?_))
    exact placedCourse here fun _ => newType
  | varTemplate =>
    refine .answers (.bind newVarCourse fun d first => .bind templateDeclCourse fun template second => ?_)
    exact placedCourse here fun _ => newTemplate second (newNode first)
  | usingTemplate =>
    refine .answers (.vet (.require _) (.bind (newSynonymCourse (fun _ => rfl) fun _ => trivial) fun r _ => ?_))
    exact .bind templateDeclCourse fun template beyond => placedCourse here fun _ => newTemplate beyond newType

theorem TagCall.course (call : TagCall) (here : trust → a.Has (scope.as shape)) :
    Course trust a (Fills scope) (call.perform scope) (·.New a) := by
  cases call with
  | aggregate kind name =>
    exact .answers (.bind (newAggregateCourse kind name) fun c beyond => placedCourse here (newClass beyond))
  | enumeration name key =>
    exact .answers (.bind (newEnumCourse name key) fun e beyond => placedCourse here (newEnumeration beyond))
  | aggregateTemplate kind name params =>
    refine .answers (.vet (.require _) (.bind (newAggregateCourse kind name) fun c first => ?_))
    exact .bind templateDeclCourse fun template second => placedCourse here (newTemplate second (newClass first))
  | declareAggregate | declareEnum => exact putDeclCourse here (.alloc (fun _ => rfl) trivial)

theorem StmtCall.course (call : StmtCall) (here : trust → a.Has (scope.as shape)) :
    Course trust a (Fills scope) (call.perform scope) (·.New a) := by
  have made {m : Build StmtRef} (filled : Course trust a (Fills scope) m fun s => a.Beyond s.ref) :
      Course trust a (Fills scope) (Answer.stmt <$> m) (·.New a) := filled.mapped fun _ => newNode
  have placed {n : StmtNode} (bare : n.bodies = []) :
      Course trust a (Fills scope) (placeStmt scope n) fun s => a.Beyond s.ref := placeStmtCourse bare here
  have owner {r : Role} {n : ScopeRef → StmtNode} {g : StmtRef → Typed r}
      (owns : ∀ body, (n body).bodies = functionBodies [body]) (same : ∀ s, (g s).handle.ref = s.ref) :
      Course trust a (Fills scope) (newBody >>= fun body => placeStmt scope (n body) >>= fun s => pure (g s))
        fun t => (Answer.typed t).New a :=
    bodyStmtCourse owns here fun _ s _ beyond => newTyped (same s ▸ beyond)
  have looped {init : Option StmtRef} {cond step : Option ExprRef} :
      Course trust a (Fills scope) (placeFor scope init cond step) fun t => (Answer.typed t).New a :=
    (placeForCourse here).weaken fun _ => newTyped
  cases call with
  | raw | empty | breakLoop | continueLoop | label | goto => exact made (placed rfl)
  | decl =>
    refine made (.bind (.vet (.own _) (.alloc (fun _ => rfl) trivial)) fun s beyond => ?_)
    exact (pushStmtCourse here).weaken fun x same => same ▸ beyond
  | expr => exact made (placeExprCourse here)
  | ifElse =>
    exact .answers (.vet (.requireIf _ _) (.vet (.requireIf _ _) (.vet (.ownOption _) (.vet (.own _)
      (owner (fun _ => rfl) fun _ => rfl)))))
  | whileLoop | doWhile => exact .answers (.vet (.own _) (owner (fun _ => rfl) fun _ => rfl))
  | forLoop => exact .answers looped
  | forDecl => exact .answers (.bind (.vet (.own _) (.alloc (c := .stmt) (fun _ => rfl) trivial)) fun _ _ => looped)
  | forExpr => exact .answers (.vet (.own _) (.bind (.alloc (c := .stmt) (fun _ => rfl) trivial) fun _ _ => looped))
  | forRange =>
    exact .answers (.vet (.require _) (.vet (.own _) (.vet (.own _) (owner (fun _ => rfl) fun _ => rfl))))
  | block =>
    refine .answers ?_
    unfold placeBlock
    simp only [Account.discardBind]
    exact bodyStmtCourse (fun _ => rfl) here fun _ _ beyond _ => newPlace beyond
  | returnValue => exact made (.vet (.ownOption _) (placed rfl))
  | labeledExpr => exact made (.vet (.own _) (.bind (.alloc (c := .stmt) (fun _ => rfl) trivial) fun _ _ => placed rfl))
  | switch =>
    refine .answers (.vet (.requireIf _ _) (.vet (.ownOption _) (.vet (.own _) ?_)))
    exact .map (placed rfl) fun _ beyond => newTyped beyond
  | throwValue => exact made (.vet (.require _) (.vet (.ownOption _) (placed rfl)))
  | tryCatch => exact .answers (.vet (.require _) (owner (fun _ => rfl) fun _ => rfl))
  | usingNamespace => exact made (.vet (.require _) (placed rfl))
  | assign => exact made (.bind binaryExprCourse fun _ _ => placeExprCourse here)
  | call => exact made (.bind callExprCourse fun _ _ => placeExprCourse here)
  | delete => exact made (.bind deleteExprCourse fun _ _ => placeExprCourse here)
  | vaList =>
    refine .answers (.bind (.request .raw) fun _ _ => .bind newVarCourse fun d beyond => ?_)
    exact (pushDeclStmtCourse here).weaken fun x same => newNode (same ▸ beyond)
  | vaStart | vaCopy | vaEnd => exact made (placeNamedCallCourse here)

theorem DirectiveCall.course (call : DirectiveCall) (branch : BranchKind) (here : trust → a.Has (scope.as shape)) :
    Course trust a (Fills scope) (call.perform scope branch) (·.New a) := by
  have made {n : DirectiveNode} (bare : n.bodies = []) :
      Course trust a (Fills scope) (Answer.directive <$> placeDirective scope n) (·.New a) :=
    (placeDirectiveCourse bare here).mapped fun _ => newNode
  have repeated {piece : String} {count : Nat} :
      Course trust a (Fills scope) (Answer.directive <$> placeRepeated scope piece count) (·.New a) := by
    refine .answers ?_
    unfold placeRepeated
    split
    · exact .throwBind fun _ => rfl
    · exact (placeDirectiveCourse rfl here).weaken fun _ => newNode
  cases call with
  | conditional head =>
    refine .answers (.vet (.ownCondition head) ?_)
    exact bodyDirectiveCourse (fun _ => rfl) here fun _ beyond => newTyped beyond
  | defineFunction => exact .answers (bodyDirectiveCourse (fun _ => rfl) here fun _ beyond => newTyped beyond)
  | newlines | spaces | tabs => exact repeated
  | _ => exact made rfl

theorem TopLevelCall.course (call : TopLevelCall) (here : trust → a.Has (scope.as shape)) (has : trust → ∀ s ∈ slotsOf call.checked, a.Has s) :
    Course trust a (Fills scope) (call.perform scope) fun answer => call.allots = true → answer.New a := by
  cases call with
  | function =>
    refine .answers (.bind newFunctionCourse fun f beyond => (placeFunctionCourse here).weaken fun g same _ => ?_)
    exact newTyped (same ▸ beyond)
  | defineFunction f =>
    exact (defineFunctionCourse here (slotsTrusted has (List.mem_cons_self ..))).mapped fun _ _ => nofun
  | functionTemplate =>
    refine .answers (.bind newFunctionCourse fun f first => .bind templateDeclCourse fun template second => ?_)
    exact .discard (pushDeclCourse here) fun _ => newTemplate second (newTyped first)
  | namespaceBlock =>
    exact .answers (.vet (.require _) (bodyDirectiveCourse (fun _ => rfl) here fun _ beyond _ => newTyped beyond))
  | usingNamespace | usingName =>
    refine .answers (.vet (.require _) ((placeDirectiveCourse rfl here).weaken fun _ beyond _ => newNode beyond))

theorem MemberCall.course (call : MemberCall) (closed : trust → a.Closed)
    (here : trust → a.Has (scope.as (.place .member))) :
    Course trust a (Fills scope) (call.perform scope) (·.New a) := by
  have placed {lifecycle : Lifecycle} {f : FunctionRef} (beyond : a.Beyond f.handle.ref) :
      Course trust a (Fills scope) (placeFunction scope lifecycle f) fun t => (Answer.typed t).New a :=
    (placeFunctionCourse here).weaken fun g same => newTyped (same ▸ beyond)
  cases call with
  | method => exact .answers (.bind (newMemberCourse closed here) fun _ => placed)
  | methodTemplate =>
    refine .answers (.bind (newMemberCourse closed here) fun f first => ?_)
    refine .bind templateDeclCourse fun template second => ?_
    exact .discard (pushDeclCourse here) (newTemplate second (newTyped first))
  | constructor | destructor =>
    refine .answers (.bind (classNameOfCourse closed here) fun _ _ => ?_)
    exact .bind (newMemberCourse closed here) fun _ => placed

end Put

theorem Call.course (call : Call) (closed : trust → a.Closed) (has : trust → ∀ s ∈ slotsOf call.handles, a.Has s) :
    Course trust a call.Last call.perform fun answer => call.allots a = true → answer.New a := by
  have checked : trust → ∀ s ∈ slotsOf call.checked, a.Has s := by
    intro trusted s mem
    refine has trusted s ?_
    rw [handles, slotsOfAppend]
    exact List.mem_append_left _ mem
  cases call with
  | type call => exact call.course checked
  | decl call => exact call.course checked
  | expr call => exact (call.course checked).weaken fun _ fresh _ => fresh
  | grow call => exact call.course checked
  | newTopLevel => exact .idle (.answers (.map .newScope fun _ beyond _ => newPlace beyond))
  | looseScope use kind => exact .idle (Course.newScope.mapped fun _ beyond _ => newPlace beyond)
  | commentBefore r text | commentAfter r text =>
    exact .silently (.vet (.own _) fun b stocks => ⟨⟨b, stocks, .comment r _⟩, trivial⟩) fun _ => newNothing
  | putAny p call => exact call.course (placeTrusted checked)
  | putTag p _ call => exact (call.course (placeTrusted checked)).weaken fun _ fresh _ => fresh
  | putStmt p _ call => exact (call.course (placeTrusted checked)).weaken fun _ fresh _ => fresh
  | putDirective p branch _ call => exact (call.course branch (placeTrusted checked)).weaken fun _ fresh _ => fresh
  | putTopLevel p _ call =>
    exact call.course (placeTrusted checked) fun trusted s mem => checked trusted s (List.mem_append_right _ mem)
  | putMember p member call =>
    have opened := placeTrusted checked
    rw [member] at opened
    exact (call.course closed opened).weaken fun _ fresh _ => fresh

end Calls

end CSource
