import CSource.Proofs.Slot

/-!
The handles that a call is given and the handles that an answer hands out. The handles of a call are listed in two
parts: those that the call checks, and those that it takes without a look.
-/

namespace CSource

def slotsOf (is : List Issued) : List Slot := is.flatMap (·.slots)

@[simp] theorem nodeSlots {c : Category} (h : Handle c) : (Issued.node c h).slots = [h.plain] := rfl

@[simp] theorem typedSlots {r : Role} (h : Typed r) : (Issued.typed r h).slots = [h.handle.as (.role r)] := rfl

@[simp] theorem placeSlots (p : Place) : (Issued.place p).slots = [p.slot] := rfl

def nodesOf {c : Category} (hs : List (Handle c)) : List Issued := hs.map (.node c ·)

def optionOf {c : Category} (h : Option (Handle c)) : List Issued := h.toList.map (.node c ·)

@[simp] theorem slotsOfNil : slotsOf [] = [] := rfl

@[simp] theorem slotsOfCons (i : Issued) (is : List Issued) : slotsOf (i :: is) = i.slots ++ slotsOf is := rfl

@[simp] theorem slotsOfAppend (is js : List Issued) : slotsOf (is ++ js) = slotsOf is ++ slotsOf js :=
  List.flatMap_append

@[simp] theorem slotsOfNodes {c : Category} (hs : List (Handle c)) : slotsOf (nodesOf hs) = plainSlots hs := by
  induction hs with
  | nil => rfl
  | cons h hs ih => exact congrArg (h.plain :: ·) ih

@[simp] theorem slotsOfOption {c : Category} (h : Option (Handle c)) : slotsOf (optionOf h) = optionSlots h := by
  cases h <;> rfl

def NodeRef.issued (r : NodeRef) : Issued := .node r.category r.handle

def TemplateArg.issued : TemplateArg → Issued
  | type ty => .node .type ty
  | expr x => .node .expr x

def Entry.issued : Entry → Issued
  | decl d => .node .decl d
  | stmt s => .node .stmt s
  | directive d => .node .directive d

@[simp] theorem slotsOfArgs (args : List TemplateArg) :
    slotsOf (args.map (·.issued)) = args.map (·.slot) := by
  induction args with
  | nil => rfl
  | cons arg args ih => cases arg <;> exact congrArg (_ :: ·) ih

@[simp] theorem entryIssuedSlots (entry : Entry) : entry.issued.slots = [entry.slot] := by
  cases entry <;> rfl

def Operand.issued : Operand → List Issued
  | .literal _ | .ident _ | .qualName _ => []
  | .expr x => [.node .expr x]
  | .var decl => [.node .decl decl]

@[simp] theorem slotsOfOperand (x : Operand) : slotsOf x.issued = x.slots := by
  cases x <;> rfl

@[simp] theorem slotsOfOperands (xs : List Operand) :
    slotsOf (xs.flatMap (·.issued)) = xs.flatMap (·.slots) := by
  induction xs with
  | nil => rfl
  | cons x xs ih => rw [List.flatMap_cons, List.flatMap_cons, slotsOfAppend, slotsOfOperand, ih]

def Fold.issued : Fold → List Issued
  | unaryLeft | unaryRight => []
  | binaryLeft start | binaryRight start => [.node .expr start]

@[simp] theorem slotsOfFold (kind : Fold) : slotsOf kind.issued = kind.slots := by
  cases kind <;> rfl

def Condition.issued : Condition → List Issued
  | holds cond => [.node .expr cond]
  | isDefined _ | isUndefined _ => []

@[simp] theorem slotsOfCondition (head : Condition) : slotsOf head.issued = head.slots := by
  cases head <;> rfl

def NewExpr.issued (data : NewExpr) : List Issued :=
  .node .type data.ty :: nodesOf data.args ++ optionOf data.arraySize ++ optionOf data.placement

@[simp] theorem slotsOfNew (data : NewExpr) : slotsOf data.issued = data.slots := by
  simp [NewExpr.issued, NewExpr.slots]

def TypeCall.checked : TypeCall → List Issued
  | primitive _ | auto | parameter _ | raw _ | newAggregate _ _ | newEnum _ _ => []
  | pointer ty | reference ty | pack ty => [.node .type ty]
  | array ty sizes => .node .type ty :: nodesOf sizes
  | function ret params _ => .node .type ret :: nodesOf params
  | named decl => [.node .decl decl]
  | instantiation template args => .node .decl template :: args.map (·.issued)
  | rawInstantiation _ args => args.map (·.issued)
  | namedClass c | members c | addRegion c _ | setFinal c _ => [.aggregate c]
  | addBase c _ base => [.aggregate c, .node .type base]
  | namedEnum r | setEnumKey r _ => [.enumeration r]
  | addEnumMember r _ value => .enumeration r :: optionOf value
  | setUnderlying r ty => [.enumeration r, .node .type ty]
  | forwardClass _ | forwardEnum _ => []

def TypeCall.unchecked : TypeCall → List Issued
  | forwardClass c => [.aggregate c]
  | forwardEnum r => [.enumeration r]
  | _ => []

def DeclCall.checked : DeclCall → List Issued
  | raw _ | rawTemplate _ => []
  | var _ ty init => .node .type ty :: optionOf init
  | arrayVar _ ty sizes init => .node .type ty :: optionOf init ++ nodesOf sizes
  | constructedVar _ ty args _ => .node .type ty :: nodesOf args
  | function _ ret params _ => .node .type ret :: nodesOf params
  | template params inner => .node .decl inner :: nodesOf params
  | setVarQualifiers d _ => [.node .decl d]
  | body f | setQualifiers f _ | setMethodQualifiers f _ => [.typed .function f]
  | addMemberInit f _ args => .typed .function f :: nodesOf args

def ExprCall.checked : ExprCall → List Issued
  | raw _ | literal _ | qualName _ => []
  | var decl => [.node .decl decl]
  | typeName ty | sizeof ty => [.node .type ty]
  | subscript base index => [.node .expr base, .node .expr index]
  | call callee args => .node .expr callee :: nodesOf args
  | unary _ x | postfixed x _ | paren x | delete x _ | userLiteral x _ | packExpansion x | operator _ x
  | select x _ _ => [.node .expr x]
  | binary lhs _ rhs | compare lhs _ rhs => [.node .expr lhs, .node .expr rhs]
  | ternary cond yes no => [.node .expr cond, .node .expr yes, .node .expr no]
  | cast ty x => [.node .type ty, .node .expr x]
  | initList items => nodesOf items
  | designated fields => nodesOf (fields.map (·.value))
  | generic control => [.node .expr control]
  | addAssociation g ty value => .typed .generic g :: (optionOf ty ++ [.node .expr value])
  | lambda _ params _ ret => nodesOf params ++ optionOf ret
  | new data => data.issued
  | instantiation template args => .node .decl template :: args.map (·.issued)
  | rawInstantiation _ args => args.map (·.issued)
  | fold _ pack kind => .node .expr pack :: kind.issued
  | vaArg list ty => [.node .expr list, .node .type ty]
  | short x | shortUnary _ x | shortPostfix x _ => x.issued
  | shortBinary lhs _ rhs => lhs.issued ++ rhs.issued
  | shortCall callee args => callee.issued ++ args.flatMap (·.issued)
  | shortIndex base indices => base.issued ++ indices.flatMap (·.issued)

def GrowCall.checked : GrowCall → List Issued
  | addElseIf s init cond => .typed .ifElse s :: .node .expr cond :: optionOf init
  | elseBranch s => [.typed .ifElse s]
  | addCase s value _ => .typed .switch s :: optionOf value
  | addHandler s decl => .typed .tryCatch s :: optionOf decl
  | addElif branch c cond => [.typed (.conditional branch) c, .node .expr cond]
  | elseOfConditional branch c => [.typed (.conditional branch) c]

def AnyCall.checked : AnyCall → List Issued
  | entry e => [e.issued]
  | decl d | declStmt d => [.node .decl d]
  | stmt s => [.node .stmt s]
  | directive d => [.node .directive d]
  | raw _ => []
  | var _ ty init => .node .type ty :: optionOf init
  | arrayVar _ ty sizes init => .node .type ty :: optionOf init ++ nodesOf sizes
  | constructedVar _ ty args _ => .node .type ty :: nodesOf args
  | typeDef _ ty | usingType _ ty => [.node .type ty]
  | varTemplate _ params ty init => .node .type ty :: optionOf init ++ nodesOf params
  | usingTemplate _ params ty => .node .type ty :: nodesOf params

def TagCall.checked : TagCall → List Issued
  | aggregateTemplate _ _ params => nodesOf params
  | aggregate _ _ | enumeration _ _ | declareAggregate _ | declareEnum _ => []

def TagCall.unchecked : TagCall → List Issued
  | declareAggregate c => [.aggregate c]
  | declareEnum r => [.enumeration r]
  | _ => []

def StmtCall.checked : StmtCall → List Issued
  | raw _ | empty | block | breakLoop | continueLoop | label _ | goto _ | tryCatch | usingNamespace _
  | vaList _ => []
  | decl d => [.node .decl d]
  | expr x | labeledExpr _ x | delete x _ | vaEnd x | whileLoop x | doWhile x => [.node .expr x]
  | ifElse init cond _ | switch init cond => .node .expr cond :: optionOf init
  | forLoop cond step => optionOf cond ++ optionOf step
  | forDecl init cond step => .node .decl init :: (optionOf cond ++ optionOf step)
  | forExpr init cond step => .node .expr init :: (optionOf cond ++ optionOf step)
  | forRange d range => [.node .decl d, .node .expr range]
  | returnValue value | throwValue value => optionOf value
  | assign lhs rhs | vaStart lhs rhs | vaCopy lhs rhs => [.node .expr lhs, .node .expr rhs]
  | call callee args => .node .expr callee :: nodesOf args

def DirectiveCall.checked : DirectiveCall → List Issued
  | conditional head => head.issued
  | _ => []

def TopLevelCall.checked : TopLevelCall → List Issued
  | function _ _ ret params _ => .node .type ret :: nodesOf params
  | defineFunction f => [.typed .function f]
  | functionTemplate _ templateParams ret params _ => .node .type ret :: nodesOf params ++ nodesOf templateParams
  | namespaceBlock _ | usingNamespace _ | usingName _ => []

def MemberCall.checked : MemberCall → List Issued
  | method _ _ ret params _ => .node .type ret :: nodesOf params
  | methodTemplate _ templateParams ret params _ => .node .type ret :: nodesOf params ++ nodesOf templateParams
  | constructor _ params => nodesOf params
  | destructor _ => []

namespace Call

/-- The handles that the call refuses if they are of another arena. -/
def checked : Call → List Issued
  | type call => call.checked
  | decl call => call.checked
  | expr call => call.checked
  | grow call => call.checked
  | newTopLevel | looseScope _ _ => []
  | commentBefore r _ | commentAfter r _ => [r.issued]
  | putAny p call => .place p :: call.checked
  | putTag p _ call => .place p :: call.checked
  | putStmt p _ call => .place p :: call.checked
  | putDirective p _ _ call => .place p :: call.checked
  | putTopLevel p _ call => .place p :: call.checked
  | putMember p _ call => .place p :: call.checked

def filled? : Call → Option ScopeRef
  | putAny p _ | putTag p _ _ | putStmt p _ _ | putDirective p _ _ _ | putTopLevel p _ _ | putMember p _ _ =>
    some p.scope
  | _ => none

/-- The handles that the call checks besides the place that it fills. -/
def handed : Call → List Issued
  | type call => call.checked
  | decl call => call.checked
  | expr call => call.checked
  | grow call => call.checked
  | newTopLevel | looseScope _ _ => []
  | commentBefore r _ | commentAfter r _ => [r.issued]
  | putAny _ call => call.checked
  | putTag _ _ call => call.checked
  | putStmt _ _ call => call.checked
  | putDirective _ _ _ call => call.checked
  | putTopLevel _ _ call => call.checked
  | putMember _ _ call => call.checked

/-- The handles that the call takes as they are: the tag of a forward declaration, and the aggregate of a scope
that no node owns. -/
def unchecked : Call → List Issued
  | type call => call.unchecked
  | putTag _ _ call => call.unchecked
  | looseScope _ kind => kind.parent?.toList.map (.node .type ·)
  | _ => []

def handles (call : Call) : List Issued := call.checked ++ call.unchecked

def isLoose : Call → Bool
  | looseScope _ _ => true
  | _ => false

/-- The call changes what was there before it looks at the scope that it fills. -/
def isHasty : Call → Bool
  | putStmt _ _ (.vaList _) | putTopLevel _ _ (.defineFunction _) => true
  | _ => false

theorem checkedCases {call : Call} {s : Slot} (mem : s ∈ slotsOf call.checked) :
    s ∈ slotsOf call.handed ∨ ∃ kind scope, call.filled? = some scope ∧ s = scope.as (.place kind) := by
  have split {p : Place} {is : List Issued} (mem : s ∈ slotsOf (.place p :: is)) :
      s ∈ slotsOf is ∨ ∃ kind scope, some p.scope = some scope ∧ s = scope.as (.place kind) := by
    rcases List.mem_cons.mp mem with rfl | later
    · exact .inr ⟨p.kind, p.scope, rfl, rfl⟩
    · exact .inl later
  cases call <;> first | exact .inl mem | exact split mem

end Call

def Query.handles : Query → List Issued
  | void | stats | dialect | rawTypeNames => []
  | node r | code r | comments r => [r.issued]
  | codeOfEntries scope | scopeKind scope | scopeEntries scope => [.node .scope scope]
  | codeOfArgs args => args.map (·.issued)
  | openPlace p => [.place p]
  | declName d | qualify d _ | varQualifiers d => [.node .decl d]
  | className c | classKind c => [.aggregate c]
  | enumName r => [.enumeration r]
  | lifecycle f | functionName f | isForward f | funcQualifiers f | methodQualifiers f => [.typed .function f]
  | lambdaBody l => [.typed .lambda l]
  | ifBody s => [.typed .ifElse s]
  | caseBody s => [.typed .caseLabel s]
  | loopBody s => [.typed .loop s]
  | tryBody s => [.typed .tryCatch s]
  | conditionalBody branch c => [.typed (.conditional branch) c]
  | macroScope m => [.typed .functionMacro m]
  | namespaceBody n => [.typed .namespaceBlock n]

namespace Answer

/-- The handles that an answer hands out. A node shows the references stored in it, as plain handles. -/
def issued : Answer → List Issued
  | handle i => [i]
  | node c n => (Node.slots c n).map (·.ref.issued)
  | scopeKind k => k.slots.map (·.ref.issued)
  | entries es => es.map (·.issued)
  | _ => []

end Answer

def issuedBy (result : Except Misuse Answer) : List Issued :=
  match result with
  | .ok answer => answer.issued
  | .error _ => []

def Issued.parts : Issued → List Issued
  | node _ _ => []
  | typed r h => [.node r.category h.handle]
  | place p => [.node .scope p.scope]
  | aggregate c => [.node .type c.ty, .node .decl c.decl]
  | enumeration r => [.node .type r.ty, .node .decl r.decl]
  | templated template inner => [.node .decl template, inner]

def Issued.Coherent : Issued → Prop
  | aggregate c => c.decl.arena = c.ty.arena
  | enumeration r => r.decl.arena = r.ty.arena
  | templated _ inner => inner.Coherent
  | node _ _ | typed _ _ | place _ => True

end CSource
