import CSource.Proofs.Account.Directives
import CSource.Proofs.Account.Functions
import CSource.Proofs.Handles
import CSource.Session.Perform

/-!
The account of every call. The handles that a call checks are the arena's own whenever the call succeeds, and whatever
the answer hands out is known. Two calls are hasty: if the scope that they fill is refused in the end, they have marked
a function or recorded a type by then, and their account is a late one.
-/

namespace CSource

open Build

variable {given : Slot → Prop} {a b : Arena}

def Answered (given : Slot → Prop) (answer : Answer) (b : Arena) : Prop :=
  ∀ i ∈ answer.issued, i.Coherent ∧ ∀ s ∈ i.slots, Known given b s

theorem answeredNode {c : Category} {h : Handle c} (known : Known given b h.plain) :
    Answered given (.handle (.node c h)) b :=
  List.forall_mem_singleton.mpr ⟨trivial, List.forall_mem_singleton.mpr known⟩

theorem answeredFresh {c : Category} {h : Handle c} (has : b.Has h.plain) :
    Answered given (.handle (.node c h)) b :=
  answeredNode (.has has)

theorem answeredTyped {r : Role} {h : Typed r} (has : b.Has (h.handle.as (.role r))) :
    Answered given (.typed h) b :=
  List.forall_mem_singleton.mpr ⟨trivial, List.forall_mem_singleton.mpr (.has has)⟩

theorem answeredPlace {p : Place} (known : Known given b p.slot) : Answered given (.place p) b :=
  List.forall_mem_singleton.mpr ⟨trivial, List.forall_mem_singleton.mpr known⟩

theorem answeredClass {c : ClassRef} (has : b.Has (c.ty.as .aggregate) ∧ b.Has c.decl.plain) :
    Answered given (.aggregate c) b := by
  have same : c.decl.arena = c.ty.arena := has.2.own.trans has.1.own.symm
  exact List.forall_mem_singleton.mpr ⟨same, Known.pair has.1 has.2⟩

theorem answeredEnum {r : EnumRef} (has : b.Has (r.ty.as .enumeration) ∧ b.Has r.decl.plain) :
    Answered given (.enumeration r) b := by
  have same : r.decl.arena = r.ty.arena := has.2.own.trans has.1.own.symm
  exact List.forall_mem_singleton.mpr ⟨same, Known.pair has.1 has.2⟩

theorem answeredTemplate {template : DeclRef} {inner : Issued} (has : b.Has template.plain)
    (answered : Answered given (.handle inner) b) : Answered given (.templated template inner) b := by
  obtain ⟨coherent, known⟩ := answered inner (List.mem_singleton_self _)
  exact List.forall_mem_singleton.mpr ⟨coherent, List.forall_mem_cons.mpr ⟨.has has, known⟩⟩

theorem silentlyAccount {act : Build Unit} {args : List Slot} {post : Unit → Arena → Prop}
    (account : Account given .does a act args post) : Account given .does a (silently act) args (Answered given) :=
  account.map fun _ _ _ _ => nofun

theorem classOwnDecl {c : ClassRef} (same : c.decl.arena = c.ty.arena) (own : ∀ s ∈ [c.decl.plain], s.Own a) :
    ∀ s ∈ (Issued.aggregate c).slots, s.Own a :=
  classOwn same (same.symm.trans (own _ (List.mem_singleton_self _)))

theorem enumOwnDecl {r : EnumRef} (same : r.decl.arena = r.ty.arena) (own : ∀ s ∈ [r.decl.plain], s.Own a) :
    ∀ s ∈ (Issued.enumeration r).slots, s.Own a :=
  enumOwn same (same.symm.trans (own _ (List.mem_singleton_self _)))

theorem TypeCall.account (call : TypeCall) (known : ∀ s ∈ slotsOf (call.checked ++ call.unchecked), given s)
    (coherent : ∀ i ∈ call.checked ++ call.unchecked, i.Coherent) :
    Account given .does a call.perform (slotsOf call.checked) (Answered given) := by
  rw [slotsOfAppend] at known
  have passed : ∀ s ∈ slotsOf call.checked, Known given a s :=
    fun s mem => .given (known s (List.mem_append_left _ mem))
  have taken : ∀ s ∈ slotsOf call.unchecked, Known given a s :=
    fun s mem => .given (known s (List.mem_append_right _ mem))
  cases call <;>
    simp only [checked, unchecked, slotsOfNil, slotsOfCons, slotsOfNodes, slotsOfOption, slotsOfArgs, nodeSlots,
      List.cons_append, List.nil_append, List.append_nil] at passed taken ⊢
  case primitive p => exact (rawTypeAccount p.spelling).mapped fun _ _ _ => answeredNode
  case auto => exact autoTypeAccount.mapped fun _ _ _ => answeredNode
  case parameter keyword => exact (typeParameterAccount keyword).mapped fun _ _ _ => answeredFresh
  case raw spelling => exact (rawTypeAccount spelling).mapped fun _ _ _ => answeredNode
  case pointer ty => exact (pointerTypeAccount passed).mapped fun _ _ _ => answeredNode
  case reference ty => exact (referenceTypeAccount passed).mapped fun _ _ _ => answeredNode
  case array ty sizes => exact (arrayTypeAccount passed).mapped fun _ _ _ => answeredNode
  case function ret params variadic => exact (functionTypeAccount passed).mapped fun _ _ _ => answeredFresh
  case named decl => exact (namedTypeAccount passed).mapped fun _ _ _ => answeredNode
  case instantiation template args => exact (instantiationTypeAccount passed).mapped fun _ _ _ => answeredFresh
  case rawInstantiation name args => exact (rawInstantiationTypeAccount passed).mapped fun _ _ _ => answeredFresh
  case pack ty => exact (packTypeAccount passed).mapped fun _ _ _ => answeredFresh
  case newAggregate kind name => exact (newAggregateAccount kind name).mapped fun _ _ _ => answeredClass
  case newEnum name key => exact (newEnumAccount name key).mapped fun _ _ _ => answeredEnum
  case namedClass c =>
    have same : c.decl.arena = c.ty.arena := coherent (.aggregate c) (List.mem_cons_self ..)
    have made := namedTypeAccount (List.forall_mem_singleton.mpr (passed c.decl.plain (by simp [Issued.slots])))
    exact (made.weaken (classOwnDecl same) fun _ _ _ h => h).mapped fun _ _ _ => answeredNode
  case members c =>
    exact (membersAccount (coherent _ (List.mem_cons_self ..)) passed).mapped fun _ _ _ => answeredPlace
  case addRegion c access =>
    exact (addRegionAccount (coherent _ (List.mem_cons_self ..)) passed).mapped fun _ _ _ => answeredPlace
  case addBase c access base =>
    have known := (List.forall_mem_append.mp passed).2
    exact silentlyAccount (addBaseAccount (coherent (.aggregate c) (List.mem_cons_self ..)) known)
  case setFinal c isFinal =>
    exact silentlyAccount (setFinalAccount (coherent (.aggregate c) (List.mem_cons_self ..)))
  case forwardClass c => exact (forwardAggregateAccount taken).mapped fun _ _ _ => answeredFresh
  case namedEnum r =>
    have same : r.decl.arena = r.ty.arena := coherent (.enumeration r) (List.mem_cons_self ..)
    have made := namedTypeAccount (List.forall_mem_singleton.mpr (passed r.decl.plain (by simp [Issued.slots])))
    exact (made.weaken (enumOwnDecl same) fun _ _ _ h => h).mapped fun _ _ _ => answeredNode
  case addEnumMember r name value =>
    have known := (List.forall_mem_append.mp passed).2
    exact silentlyAccount (addEnumMemberAccount (coherent (.enumeration r) (List.mem_cons_self ..)) known)
  case setUnderlying r ty =>
    have known := (List.forall_mem_append.mp passed).2
    exact silentlyAccount (setUnderlyingAccount (coherent (.enumeration r) (List.mem_cons_self ..)) known)
  case setEnumKey r key =>
    exact silentlyAccount (setEnumKeyAccount (coherent (.enumeration r) (List.mem_cons_self ..)))
  case forwardEnum r => exact (forwardEnumAccount taken).mapped fun _ _ _ => answeredFresh

theorem DeclCall.account (call : DeclCall) (passed : ∀ s ∈ slotsOf call.checked, Known given a s) :
    Account given .does a call.perform (slotsOf call.checked) (Answered given) := by
  cases call <;>
    simp only [checked, slotsOfNil, slotsOfCons, slotsOfAppend, slotsOfNodes, slotsOfOption, nodeSlots, typedSlots,
      List.cons_append, List.nil_append, List.append_nil] at passed ⊢
  case raw text => exact (rawDeclAccount text).mapped fun _ _ _ => answeredFresh
  case var name ty init => exact (varDeclAccount passed).mapped fun _ _ _ => answeredFresh
  case arrayVar name ty sizes init => exact (arrayVarDeclAccount passed).mapped fun _ _ _ => answeredFresh
  case constructedVar name ty args braced =>
    exact (constructedVarDeclAccount passed).mapped fun _ _ _ => answeredFresh
  case function name ret params variadic => exact (functionDeclAccount passed).mapped fun _ _ _ => answeredTyped
  case template params inner => exact (templateDeclAccount passed).mapped fun _ _ _ => answeredFresh
  case rawTemplate name => exact (rawTemplateDeclAccount name).mapped fun _ _ _ => answeredFresh
  case setVarQualifiers d quals => exact silentlyAccount setVarQualifiersAccount
  case body f => exact functionBodyAccount.mapped fun _ _ _ => answeredPlace
  case setQualifiers f quals => exact silentlyAccount setFunctionQualifiersAccount
  case setMethodQualifiers f quals => exact silentlyAccount setMethodQualifiersAccount
  case addMemberInit f member args =>
    exact silentlyAccount (addMemberInitAccount (List.forall_mem_cons.mp passed).2)

theorem ExprCall.account (call : ExprCall) (passed : ∀ s ∈ slotsOf call.checked, Known given a s) :
    Account given .does a call.perform (slotsOf call.checked) (Answered given) := by
  cases call <;>
    simp only [checked, slotsOfNil, slotsOfCons, slotsOfAppend, slotsOfNodes, slotsOfOption, slotsOfArgs,
      slotsOfOperand, slotsOfOperands, slotsOfFold, slotsOfNew, nodeSlots, typedSlots, List.cons_append,
      List.nil_append, List.append_nil] at passed ⊢
  case raw text => exact (rawExprAccount text).mapped fun _ _ _ => answeredFresh
  case literal l => exact (literalExprAccount l).mapped fun _ _ _ => answeredFresh
  case var decl => exact (varExprAccount passed).mapped fun _ _ _ => answeredFresh
  case typeName ty => exact (typeExprAccount passed).mapped fun _ _ _ => answeredFresh
  case subscript base index => exact (subscriptExprAccount passed).mapped fun _ _ _ => answeredFresh
  case call callee args => exact (callExprAccount passed).mapped fun _ _ _ => answeredFresh
  case unary op x => exact (unaryExprAccount passed).mapped fun _ _ _ => answeredFresh
  case postfixed x op => exact (postfixExprAccount passed).mapped fun _ _ _ => answeredFresh
  case binary lhs op rhs => exact (binaryExprAccount passed).mapped fun _ _ _ => answeredFresh
  case ternary cond yes no => exact (ternaryExprAccount passed).mapped fun _ _ _ => answeredFresh
  case cast ty x => exact (castExprAccount passed).mapped fun _ _ _ => answeredFresh
  case paren inner => exact (parenExprAccount passed).mapped fun _ _ _ => answeredFresh
  case initList items => exact (initListExprAccount passed).mapped fun _ _ _ => answeredFresh
  case designated fields => exact (designatedExprAccount passed).mapped fun _ _ _ => answeredFresh
  case generic control => exact (genericExprAccount passed).mapped fun _ _ _ => answeredTyped
  case addAssociation g ty value =>
    exact silentlyAccount (addAssociationAccount (List.forall_mem_cons.mp passed).2)
  case qualName name => exact (qualNameExprAccount name).mapped fun _ _ _ => answeredFresh
  case lambda captures params variadic ret => exact (lambdaExprAccount passed).mapped fun _ _ _ => answeredTyped
  case new data => exact (newExprAccount passed).mapped fun _ _ _ => answeredFresh
  case delete x array => exact (deleteExprAccount passed).mapped fun _ _ _ => answeredFresh
  case userLiteral x suffix => exact (userLiteralExprAccount passed).mapped fun _ _ _ => answeredFresh
  case instantiation template args => exact (instantiationExprAccount passed).mapped fun _ _ _ => answeredFresh
  case rawInstantiation name args => exact (rawInstantiationExprAccount passed).mapped fun _ _ _ => answeredFresh
  case packExpansion pack => exact (packExpansionExprAccount passed).mapped fun _ _ _ => answeredFresh
  case fold op pack kind => exact (foldExprAccount passed).mapped fun _ _ _ => answeredFresh
  case operator op x => exact (unaryExprAccount passed).mapped fun _ _ _ => answeredFresh
  case compare lhs op rhs => exact (binaryExprAccount passed).mapped fun _ _ _ => answeredFresh
  case select lhs selection member => exact (selectExprAccount passed).mapped fun _ _ _ => answeredFresh
  case sizeof ty => exact (sizeofExprAccount passed).mapped fun _ _ _ => answeredFresh
  case vaArg list ty => exact (vaArgExprAccount passed).mapped fun _ _ _ => answeredFresh
  case short x => exact (operandAccount x passed).mapped fun _ _ _ => answeredFresh
  case shortUnary op x => exact (shortUnaryAccount passed).mapped fun _ _ _ => answeredFresh
  case shortPostfix x op => exact (shortPostfixAccount passed).mapped fun _ _ _ => answeredFresh
  case shortBinary lhs op rhs => exact (shortBinaryAccount passed).mapped fun _ _ _ => answeredFresh
  case shortCall callee args => exact (shortCallAccount passed).mapped fun _ _ _ => answeredFresh
  case shortIndex base indices => exact (shortIndexAccount passed).mapped fun _ _ _ => answeredFresh

/-- What the arena keeps of the handles that a call is given: the nodes are there, and typed handles name nodes of
their shape. -/
def Faithful (given : Slot → Prop) (a : Arena) : Prop :=
  ∀ s, given s → s.Own a → ∃ n, (a.nodes s.ref.category)[s.ref.index]? = some n ∧
    ∀ r, s.shape = .role r → s.shape.accepts _ n = true

theorem Faithful.selects {branch : BranchKind} {c : Typed (.conditional branch)} (faithful : Faithful given a)
    (issued : given (c.handle.as (.role (.conditional branch)))) : a.Selects c := by
  intro data here
  obtain ⟨n, found, accepted⟩ := faithful _ issued (nodeOwn here)
  cases Option.some.inj (found.symm.trans (Arena.nodeIff.mp here).2)
  exact of_decide_eq_true (accepted _ rfl)

theorem Faithful.present {scope : ScopeRef} {shape : Shape} (faithful : Faithful given a)
    (issued : given (scope.as shape)) (own : scope.arena = a.number) : ∃ n, a.node scope = .ok n := by
  obtain ⟨n, found, _⟩ := faithful _ issued own
  exact ⟨n, Arena.nodeIff.mpr ⟨own, found⟩⟩

theorem GrowCall.account (call : GrowCall) (faithful : Faithful given a) (known : ∀ s ∈ slotsOf call.checked, given s) :
    Account given .does a call.perform (slotsOf call.checked) (Answered given) := by
  have passed : ∀ s ∈ slotsOf call.checked, Known given a s := fun s mem => .given (known s mem)
  cases call <;>
    simp only [checked, slotsOfNil, slotsOfCons, slotsOfOption, nodeSlots, typedSlots, List.cons_append,
      List.nil_append, List.append_nil] at known passed ⊢
  case addElseIf s init cond =>
    exact (addElseIfAccount (List.forall_mem_cons.mp passed).2).mapped fun _ _ _ => answeredPlace
  case elseBranch s => exact elseBranchAccount.mapped fun _ _ _ => answeredPlace
  case addCase s value fallthrough =>
    exact (addCaseAccount (List.forall_mem_cons.mp passed).2).mapped fun _ _ _ => answeredTyped
  case addHandler s decl =>
    exact (addHandlerAccount (List.forall_mem_cons.mp passed).2).mapped fun _ _ _ => answeredPlace
  case addElif branch c cond =>
    have selects := faithful.selects (known _ (List.mem_cons_self ..))
    exact (addElifAccount selects (List.forall_mem_cons.mp passed).2).mapped fun _ _ _ => answeredPlace
  case elseOfConditional branch c =>
    have selects := faithful.selects (known _ (List.mem_cons_self ..))
    exact (elseOfConditionalAccount selects).mapped fun _ _ _ => answeredPlace

section Put

variable {scope : ScopeRef}

theorem answeredGiven {c : Category} {g h : Handle c} (known : ∀ s ∈ [h.plain], given s) (same : g = h) :
    Answered given (.handle (.node c g)) b := by
  subst same
  exact answeredNode (.given (known _ (List.mem_singleton_self _)))

theorem AnyCall.account (call : AnyCall) (known : ∀ s ∈ slotsOf call.checked, given s) :
    Account given .does a (call.perform scope) (slotsOf call.checked) (Answered given) := by
  have passed : ∀ s ∈ slotsOf call.checked, Known given a s := fun s mem => .given (known s mem)
  cases call <;>
    simp only [checked, slotsOfNil, slotsOfCons, slotsOfAppend, slotsOfNodes, slotsOfOption, nodeSlots,
      entryIssuedSlots, List.cons_append, List.nil_append, List.append_nil] at known passed ⊢
  case entry entry => exact silentlyAccount (pushEntryAccount entry passed)
  case decl d => exact (pushDeclAccount passed).mapped fun _ _ _ => answeredGiven known
  case declStmt d => exact (pushDeclStmtAccount passed).mapped fun _ _ _ => answeredGiven known
  case stmt s => exact (pushStmtAccount passed).mapped fun _ _ _ => answeredGiven known
  case directive d => exact (pushDirectiveAccount passed).mapped fun _ _ _ => answeredGiven known
  case raw text => exact (defRawAccount text).mapped fun _ _ _ => answeredFresh
  case var name ty init => exact (defVarAccount passed).mapped fun _ _ _ => answeredFresh
  case arrayVar name ty sizes init => exact (defArrayVarAccount passed).mapped fun _ _ _ => answeredFresh
  case constructedVar name ty args braced =>
    exact (defConstructedVarAccount passed).mapped fun _ _ _ => answeredFresh
  case typeDef name ty => exact (defTypedefAccount passed).mapped fun _ _ _ => answeredFresh
  case usingType name ty => exact (defUsingAccount passed).mapped fun _ _ _ => answeredFresh
  case varTemplate name params ty init =>
    exact (defVarTemplateAccount passed).mapped fun _ _ _ has => answeredTemplate has.1 (answeredFresh has.2)
  case usingTemplate name params ty =>
    exact (defUsingTemplateAccount passed).mapped fun _ _ _ has => answeredTemplate has.1 (answeredFresh has.2)

theorem TagCall.account (call : TagCall) (known : ∀ s ∈ slotsOf (call.checked ++ call.unchecked), given s) :
    Account given .does a (call.perform scope) (slotsOf call.checked) (Answered given) := by
  have passed : ∀ s ∈ slotsOf (call.checked ++ call.unchecked), Known given a s := fun s mem => .given (known s mem)
  cases call <;>
    simp only [checked, unchecked, slotsOfNil, slotsOfCons, slotsOfNodes, List.nil_append,
      List.append_nil] at passed ⊢
  case aggregate kind name => exact (defAggregateAccount kind name).mapped fun _ _ _ => answeredClass
  case enumeration name key => exact (defEnumAccount name key).mapped fun _ _ _ => answeredEnum
  case aggregateTemplate kind name params =>
    exact (defAggregateTemplateAccount passed).mapped fun _ _ _ has =>
      answeredTemplate has.1 (answeredClass has.2)
  case declareAggregate c => exact (declareAggregateAccount passed).mapped fun _ _ _ => answeredFresh
  case declareEnum r => exact (declareEnumAccount passed).mapped fun _ _ _ => answeredFresh

theorem StmtCall.account (call : StmtCall) (present : (∃ name, call = .vaList name) → ∃ n, a.node scope = .ok n)
    (passed : ∀ s ∈ slotsOf call.checked, Known given a s) :
    Account given .does a (call.perform scope) (slotsOf call.checked) (Answered given) := by
  cases call <;>
    simp only [checked, slotsOfNil, slotsOfCons, slotsOfAppend, slotsOfNodes, slotsOfOption, nodeSlots,
      List.cons_append, List.nil_append, List.append_nil] at passed ⊢
  case raw text => exact .mapped (placeBareAccount rfl trivial nofun) fun _ _ _ => answeredFresh
  case empty => exact .mapped (placeBareAccount rfl trivial nofun) fun _ _ _ => answeredFresh
  case decl d => exact (placeDeclAccount passed).mapped fun _ _ _ => answeredFresh
  case expr x => exact (placeExprAccount passed).mapped fun _ _ _ => answeredFresh
  case ifElse init cond isConstexpr => exact (placeIfAccount passed).mapped fun _ _ _ => answeredTyped
  case whileLoop cond => exact (placeWhileAccount passed).mapped fun _ _ _ => answeredTyped
  case forLoop cond step => exact (placeForAccount none passed).mapped fun _ _ _ => answeredTyped
  case forDecl init cond step => exact (placeForDeclAccount passed).mapped fun _ _ _ => answeredTyped
  case forExpr init cond step => exact (placeForExprAccount passed).mapped fun _ _ _ => answeredTyped
  case forRange d range => exact (placeForRangeAccount passed).mapped fun _ _ _ => answeredTyped
  case doWhile cond => exact (placeDoWhileAccount passed).mapped fun _ _ _ => answeredTyped
  case block => exact placeBlockAccount.mapped fun _ _ _ has => answeredPlace (.has has)
  case returnValue value => exact (placeReturnAccount passed).mapped fun _ _ _ => answeredFresh
  case breakLoop => exact .mapped (placeBareAccount rfl trivial nofun) fun _ _ _ => answeredFresh
  case continueLoop => exact .mapped (placeBareAccount rfl trivial nofun) fun _ _ _ => answeredFresh
  case label name => exact .mapped (placeBareAccount rfl trivial nofun) fun _ _ _ => answeredFresh
  case labeledExpr name x => exact (placeLabeledExprAccount passed).mapped fun _ _ _ => answeredFresh
  case goto label => exact .mapped (placeBareAccount rfl trivial nofun) fun _ _ _ => answeredFresh
  case switch init cond => exact (placeSwitchAccount passed).mapped fun _ _ _ => answeredTyped
  case throwValue value => exact (placeThrowAccount passed).mapped fun _ _ _ => answeredFresh
  case tryCatch => exact placeTryAccount.mapped fun _ _ _ => answeredTyped
  case usingNamespace name => exact (placeUsingNamespaceAccount name).mapped fun _ _ _ => answeredFresh
  case assign lhs rhs => exact (placeAssignAccount passed).mapped fun _ _ _ => answeredFresh
  case call callee args => exact (placeCallAccount passed).mapped fun _ _ _ => answeredFresh
  case delete x array => exact (placeDeleteAccount passed).mapped fun _ _ _ => answeredFresh
  case vaList name => exact (placeVaListAccount (present ⟨name, rfl⟩)).mapped fun _ _ _ => answeredFresh
  case vaStart list last => exact (placeNamedCallAccount [list, last] passed).mapped fun _ _ _ => answeredFresh
  case vaCopy dest src => exact (placeNamedCallAccount [dest, src] passed).mapped fun _ _ _ => answeredFresh
  case vaEnd list => exact (placeNamedCallAccount [list] passed).mapped fun _ _ _ => answeredFresh

theorem DirectiveCall.account (call : DirectiveCall) (branch : BranchKind)
    (passed : ∀ s ∈ slotsOf call.checked, Known given a s) :
    Account given .does a (call.perform scope branch) (slotsOf call.checked) (Answered given) := by
  cases call <;> simp only [checked, slotsOfNil, slotsOfCondition] at passed ⊢
  case conditional head => exact (placeConditionalAccount passed).mapped fun _ _ _ => answeredTyped
  case defineFunction name params =>
    exact (placeMacroFunctionAccount name params).mapped fun _ _ _ => answeredTyped
  case newlines count => exact (placeRepeatedAccount _ count).mapped fun _ _ _ => answeredFresh
  case spaces count => exact (placeRepeatedAccount _ count).mapped fun _ _ _ => answeredFresh
  case tabs count => exact (placeRepeatedAccount _ count).mapped fun _ _ _ => answeredFresh
  all_goals exact .mapped (placeBareDirectiveAccount rfl trivial nofun) fun _ _ _ => answeredFresh

theorem TopLevelCall.account (call : TopLevelCall)
    (present : (∃ f, call = .defineFunction f) → ∃ n, a.node scope = .ok n)
    (passed : ∀ s ∈ slotsOf call.checked, Known given a s) :
    Account given .does a (call.perform scope) (slotsOf call.checked) (Answered given) := by
  cases call <;>
    simp only [checked, slotsOfNil, slotsOfCons, slotsOfAppend, slotsOfNodes, nodeSlots, typedSlots,
      List.cons_append, List.nil_append, List.append_nil] at passed ⊢
  case function lifecycle name ret params variadic =>
    exact (defFunctionAccount passed).mapped fun _ _ _ => answeredTyped
  case defineFunction f => exact (defineFunctionAccount (present ⟨f, rfl⟩)).mapped fun _ _ _ => answeredTyped
  case functionTemplate name templateParams ret params variadic =>
    exact (defFunctionTemplateAccount passed).mapped fun _ _ _ has => answeredTemplate has.1 (answeredTyped has.2)
  case namespaceBlock name => exact (placeNamespaceAccount name).mapped fun _ _ _ => answeredTyped
  case usingNamespace name => exact (placeUsingDirectiveAccount name).mapped fun _ _ _ => answeredFresh
  case usingName name => exact (placeUsingNameAccount name).mapped fun _ _ _ => answeredFresh

theorem MemberCall.account (call : MemberCall) (issued : given (scope.as (.place .member)))
    (passed : ∀ s ∈ slotsOf call.checked, Known given a s) :
    Account given .does a (call.perform scope) (slotsOf call.checked) (Answered given) := by
  cases call <;>
    simp only [checked, slotsOfNil, slotsOfCons, slotsOfAppend, slotsOfNodes, nodeSlots, List.cons_append,
      List.nil_append] at passed ⊢
  case method lifecycle name ret params variadic =>
    exact (defMethodAccount issued passed).mapped fun _ _ _ => answeredTyped
  case methodTemplate name templateParams ret params variadic =>
    exact (defMethodTemplateAccount issued passed).mapped fun _ _ _ has =>
      answeredTemplate has.1 (answeredTyped has.2)
  case constructor lifecycle params => exact (defConstructorAccount issued passed).mapped fun _ _ _ => answeredTyped
  case destructor lifecycle => exact (defDestructorAccount issued).mapped fun _ _ _ => answeredTyped

end Put

namespace Call

section Calls

variable {call : Call}

theorem known (known : ∀ s ∈ slotsOf call.handles, given s) : ∀ s ∈ slotsOf call.handed, Known given a s := by
  intro s mem
  have listed : s ∈ slotsOf call.checked := by
    cases call <;> first | exact mem | exact List.mem_cons_of_mem _ mem
  refine .given (known s ?_)
  rw [handles, slotsOfAppend]
  exact List.mem_append_left _ listed

theorem account (faithful : Faithful given a) (known : ∀ s ∈ slotsOf call.handles, given s)
    (coherent : ∀ i ∈ call.handles, i.Coherent) (tight : call.isLoose = false)
    (steady : call.isHasty = true → ∀ scope, call.filled? = some scope → scope.arena = a.number) :
    Account given .does a call.perform (slotsOf call.handed) (Answered given) := by
  have passed : ∀ s ∈ slotsOf call.handed, Known given a s := Call.known known
  cases call with
  | type call => exact call.account known coherent
  | decl call => exact call.account passed
  | expr call => exact call.account passed
  | grow call => exact call.account faithful fun s mem => known s (by simp_all [handles, checked])
  | newTopLevel => exact newTopLevelAccount.mapped fun _ _ _ has => answeredPlace (.has has)
  | looseScope use kind => contradiction
  | commentBefore r text => exact silentlyAccount (commentBeforeAccount (passed _ (List.mem_singleton_self _)))
  | commentAfter r text => exact silentlyAccount (commentAfterAccount (passed _ (List.mem_singleton_self _)))
  | putAny p call => exact call.account fun s mem => known s (by simp_all [handles, checked])
  | putTag p taken call => exact call.account fun s mem => known s (by simp_all [handles, checked, unchecked])
  | putStmt p taken call =>
    refine call.account ?_ passed
    rintro ⟨name, rfl⟩
    exact faithful.present (known p.slot (List.mem_cons_self ..)) (steady rfl _ rfl)
  | putDirective p branch taken call => exact call.account branch passed
  | putTopLevel p taken call =>
    refine call.account ?_ passed
    rintro ⟨f, rfl⟩
    exact faithful.present (known p.slot (List.mem_cons_self ..)) (steady rfl _ rfl)
  | putMember p taken call =>
    refine call.account ?_ passed
    have issued := known p.slot (List.mem_cons_self ..)
    rwa [Place.slot, taken] at issued

theorem lateAccount (faithful : Faithful given a) (known : ∀ s ∈ slotsOf call.handles, given s)
    (coherent : ∀ i ∈ call.handles, i.Coherent) (tight : call.isLoose = false) :
    LateAccount given a call.perform (slotsOf call.handed) (Answered given) := by
  cases hasty : call.isHasty with
  | false => exact (call.account faithful known coherent tight (by simp [hasty])).late
  | true =>
    cases call <;> try contradiction
    case putStmt p taken call =>
      cases call <;> try contradiction
      exact placeVaListLate.mapped fun _ _ => answeredFresh
    case putTopLevel p taken call =>
      cases call <;> try contradiction
      exact defineFunctionLate.mapped fun _ _ => answeredTyped

end Calls

theorem looseAccount {kind : ScopeKind} (known : ∀ s ∈ kind.slots, given s) :
    Account given .makes a (newScope kind) [] fun scope b =>
      scope.arena = b.number ∧ (b.nodes .scope)[scope.index]? = some ⟨kind, []⟩ := by
  have slots : Node.slots .scope ⟨kind, []⟩ = kind.slots := List.append_nil _
  refine .alloc ⟨?_, .inl rfl, rfl, nofun⟩ nofun ⟨(Arena.numberPush ..).symm, a.pushedNode .scope _⟩
  rw [slots]
  exact fun s mem => .given (known s mem)

end Call

end CSource
