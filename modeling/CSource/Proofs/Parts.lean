import CSource.Proofs.Closed

/-!
The parts of a node: the nodes that are written in full where it is written, in their order. A reference by name is
none of them. The parts of a node of a closed arena are nodes of that arena.
-/

namespace CSource

def refsOf {c : Category} (hs : List (Handle c)) : List NodeRef := hs.map (·.ref)

@[simp] theorem refsOfNil {c : Category} : refsOf ([] : List (Handle c)) = [] := rfl

@[simp] theorem refsOfCons {c : Category} (h : Handle c) (hs : List (Handle c)) :
    refsOf (h :: hs) = h.ref :: refsOf hs := rfl

def optionRefs {c : Category} (h : Option (Handle c)) : List NodeRef := refsOf h.toList

def TypeNode.parts : TypeNode → List NodeRef
  | raw _ | void | parameter _ | named _ | synonym _ _ => []
  | pointer ty | reference ty | pack ty => [ty.ref]
  | array element sizes => element.ref :: refsOf sizes
  | function ret params _ => ret.ref :: refsOf params
  | aggregate data => data.bases.map (·.ty.ref) ++ data.regions.map (·.scope.ref)
  | enumeration data => optionRefs data.underlying ++ data.members.flatMap (optionRefs ·.value)
  | instantiation _ args => args.map (·.ref)

def VarShape.parts : VarShape → List NodeRef
  | .plain => []
  | .array sizes => refsOf sizes
  | .construct args _ => refsOf args

namespace FuncDecl

def signatureParts (f : FuncDecl) : List NodeRef := optionRefs f.ret ++ refsOf f.params

def bodyParts (f : FuncDecl) : List NodeRef :=
  match f.special, f.body with
  | none, some body => f.inits.flatMap (refsOf ·.args) ++ [body.ref]
  | _, _ => []

end FuncDecl

/-- A name is written into a function type, a pointer to one, or an array, and behind any other type. -/
def Arena.declaratorParts (a : Arena) (ty : TypeRef) : List NodeRef :=
  match a.node ty with
  | .ok (.function ret params _) => ret.ref :: refsOf params
  | .ok (.pointer pointee) =>
    match a.node pointee with
    | .ok (.function ret params _) => ret.ref :: refsOf params
    | _ => [ty.ref]
  | .ok (.array element sizes) => element.ref :: refsOf sizes
  | _ => [ty.ref]

/-- The first half of a split function shows the signature of the function, and a synonym is written as the type that
it stands for. -/
def DeclNode.parts (a : Arena) : DeclNode → List NodeRef
  | raw _ => []
  | var data => a.declaratorParts data.ty ++ data.shape.parts ++ optionRefs data.init
  | function data => data.signatureParts ++ data.bodyParts
  | splitForward func =>
    match a.node func with
    | .ok (.function data) => data.signatureParts
    | _ => []
  | aggregate ty false | enumeration ty false => [ty.ref]
  | aggregate _ true => []
  | enumeration ty true =>
    match a.node ty with
    | .ok (.enumeration data) => optionRefs data.underlying
    | _ => []
  | typeDef ty =>
    match a.node ty with
    | .ok (.synonym _ aliased) => a.declaratorParts aliased
    | _ => []
  | usingType ty =>
    match a.node ty with
    | .ok (.synonym _ aliased) => [aliased.ref]
    | _ => []
  | template params inner => refsOf params ++ [inner.ref]

def Fold.parts (pack : ExprRef) : Fold → List NodeRef
  | unaryLeft | unaryRight => [pack.ref]
  | binaryLeft start => [start.ref, pack.ref]
  | binaryRight start => [pack.ref, start.ref]

def ExprNode.parts : ExprNode → List NodeRef
  | raw _ | var _ | qualName _ => []
  | typeName ty => [ty.ref]
  | subscript base index => [base.ref, index.ref]
  | call callee args => callee.ref :: refsOf args
  | unary _ x _ | paren x | delete x _ | userLiteral x _ | packExpansion x => [x.ref]
  | binary _ lhs rhs => [lhs.ref, rhs.ref]
  | ternary cond yes no => [cond.ref, yes.ref, no.ref]
  | cast ty x => [ty.ref, x.ref]
  | initList items => refsOf items
  | designated fields => fields.map (·.value.ref)
  | generic control assocs => control.ref :: assocs.flatMap fun assoc => optionRefs assoc.ty ++ [assoc.value.ref]
  | lambda data => refsOf data.params ++ optionRefs data.ret ++ [data.body.ref]
  | new data => optionRefs data.placement ++ data.ty.ref :: optionRefs data.arraySize ++ refsOf data.args
  | instantiation _ args => args.map (·.ref)
  | fold _ pack kind => kind.parts pack

def StmtNode.parts : StmtNode → List NodeRef
  | raw _ | empty | breakLoop | continueLoop | goto _ | usingNamespace _ => []
  | decl d => [d.ref]
  | expr x => [x.ref]
  | ifElse data =>
    optionRefs data.init ++ [data.cond.ref, data.body.ref] ++
      data.elseIfs.flatMap (fun b => optionRefs b.init ++ [b.cond.ref, b.body.ref]) ++ optionRefs data.otherwise
  | whileLoop cond body => [cond.ref, body.ref]
  | forLoop init cond step body => optionRefs init ++ optionRefs cond ++ optionRefs step ++ [body.ref]
  | forRange d range body => [d.ref, range.ref, body.ref]
  | doWhile cond body => [body.ref, cond.ref]
  | block body => [body.ref]
  | returnValue value | throwValue value => optionRefs value
  | label _ inner => optionRefs inner
  | switch data => optionRefs data.init ++ data.cond.ref :: refsOf data.cases
  | caseLabel data => optionRefs data.value ++ [data.body.ref]
  | tryCatch data => data.body.ref :: data.handlers.flatMap fun h => optionRefs h.decl ++ [h.body.ref]

def Condition.parts : Condition → List NodeRef
  | holds cond => [cond.ref]
  | isDefined _ | isUndefined _ => []

def DirectiveNode.parts : DirectiveNode → List NodeRef
  | defineFunction _ _ body | namespaceBlock _ body => [body.ref]
  | conditional data =>
    data.head.parts ++ data.body.ref :: data.elifs.flatMap (fun e => [e.cond.ref, e.body.ref]) ++
      optionRefs data.otherwise
  | _ => []

def Node.parts (a : Arena) : (c : Category) → Node c → List NodeRef
  | .type, n => TypeNode.parts n
  | .decl, n => DeclNode.parts a n
  | .expr, n => ExprNode.parts n
  | .stmt, n => StmtNode.parts n
  | .directive, n => DirectiveNode.parts n
  | .scope, n => (ScopeNode.entries n).map (·.ref)

def Arena.parts (a : Arena) (r : NodeRef) : List NodeRef :=
  match a.node r.handle with
  | .ok n => Node.parts a r.category n
  | .error _ => []

theorem memRefsOf {c : Category} {hs : List (Handle c)} {k : NodeRef} : k ∈ refsOf hs ↔ ∃ h ∈ hs, h.ref = k :=
  List.mem_map

theorem memOptionRefs {c : Category} {h : Option (Handle c)} {k : NodeRef} :
    k ∈ optionRefs h ↔ ∃ x, h = some x ∧ x.ref = k := by
  cases h <;> simp [optionRefs, eq_comm]

@[simp] theorem slotRefsPlain {c : Category} (hs : List (Handle c)) : (plainSlots hs).map Slot.ref = refsOf hs := by
  induction hs with
  | nil => rfl
  | cons h hs ih => exact congrArg (h.ref :: ·) ih

@[simp] theorem slotRefsOption {c : Category} (h : Option (Handle c)) :
    (optionSlots h).map Slot.ref = optionRefs h := by
  cases h <;> rfl

@[simp] theorem refAs {c : Category} (h : Handle c) (shape : Shape) : (h.as shape).ref = h.ref := rfl

@[simp] theorem refPlain {c : Category} (h : Handle c) : h.plain.ref = h.ref := rfl

theorem TypeNode.partsStored (n : TypeNode) : n.parts ⊆ n.slots.map (·.ref) := by
  intro k mem
  cases n <;> simp_all [parts, slots, List.map_flatMap, TemplateArg.slot, Function.comp_def]

theorem ExprNode.partsStored (n : ExprNode) : n.parts ⊆ n.slots.map (·.ref) := by
  intro k mem
  cases n with
  | fold op pack kind => cases kind <;> simp_all [parts, slots, Fold.parts, Fold.slots, or_comm]
  | new data =>
    simp only [parts, slots, NewExpr.slots, List.map_append, List.map_cons, slotRefsPlain, slotRefsOption, refPlain,
      List.mem_append, List.mem_cons, List.cons_append] at mem ⊢
    grind
  | lambda data =>
    simp only [parts, slots, List.map_append, List.map_cons, slotRefsPlain, slotRefsOption, refAs, List.mem_append,
      List.mem_cons, List.cons_append, List.not_mem_nil] at mem ⊢
    grind
  | designated fields =>
    obtain ⟨d, listed, rfl⟩ := List.mem_map.mp mem
    rw [slots, slotRefsPlain]
    exact memRefsOf.mpr ⟨d.value, List.mem_map_of_mem listed, rfl⟩
  | _ => simp_all [parts, slots, List.map_flatMap, TemplateArg.slot, Function.comp_def]

theorem StmtNode.partsStored (n : StmtNode) : n.parts ⊆ n.slots.map (·.ref) := by
  intro k mem
  cases n
  all_goals
    simp [parts, slots, List.map_flatMap, Function.comp_def, memRefsOf, memOptionRefs] at mem ⊢ <;> grind

theorem DirectiveNode.partsStored (n : DirectiveNode) : n.parts ⊆ n.slots.map (·.ref) := by
  intro k mem
  cases n with
  | conditional data =>
    have head : data.head.slots.map (·.ref) = data.head.parts := by cases data.head <;> rfl
    simp [parts, slots, Conditional.slots, head, List.map_flatMap, Function.comp_def, memOptionRefs] at mem ⊢
    grind
  | _ => simp_all [parts, slots]

namespace Arena.Closed

variable {a : Arena}

theorem slotsPresent (closed : a.Closed) {c : Category} {h : Handle c} {n : Node c} (here : a.node h = .ok n)
    {k : NodeRef} (mem : k ∈ (Node.slots c n).map (·.ref)) : a.Present k := by
  obtain ⟨s, listed, rfl⟩ := List.mem_map.mp mem
  exact (closed.stored s (.node (Arena.nodeIff.mp here).2 listed)).present

theorem typePartsPresent (closed : a.Closed) {h : TypeRef} {n : TypeNode} (here : a.node h = .ok n) :
    ∀ k ∈ n.parts, a.Present k :=
  fun _ mem => closed.slotsPresent here (n.partsStored mem)

theorem declaratorPresent (closed : a.Closed) {ty : TypeRef} (has : a.Has ty.plain) :
    ∀ k ∈ a.declaratorParts ty, a.Present k := by
  have whole : ∀ k ∈ [ty.ref], a.Present k := List.forall_mem_singleton.mpr has.present
  obtain ⟨n, here, _⟩ := has.found
  unfold Arena.declaratorParts
  rw [here]
  cases n with
  | function ret params variadic => exact closed.typePartsPresent here
  | array element sizes => exact closed.typePartsPresent here
  | pointer pointee =>
    have slot : a.Has pointee.plain := closed.slot here (List.mem_singleton_self _)
    obtain ⟨m, there, _⟩ := slot.found
    dsimp only
    rw [there]
    cases m with
    | function ret params variadic => exact closed.typePartsPresent there
    | _ => exact whole
  | _ => exact whole

theorem functionPartsPresent (closed : a.Closed) {d : DeclRef} {data : FuncDecl}
    (here : a.node d = .ok (.function data)) : ∀ k ∈ data.signatureParts ++ data.bodyParts, a.Present k := by
  intro k mem
  refine closed.slotsPresent here ?_
  have slots : (Node.slots .decl (.function data)).map (·.ref) = data.signatureParts ++ optionRefs data.body ++
      data.method.toList.map (·.parent.ref) ++ data.inits.flatMap (refsOf ·.args) := by
    simp [Node.slots, DeclNode.slots, FuncDecl.signatureParts, List.map_flatMap, optionRefs, refsOf,
      Function.comp_def]
  rw [slots]
  rcases List.mem_append.mp mem with signature | body
  · simp [signature]
  · unfold FuncDecl.bodyParts at body
    split at body <;> try contradiction
    rename_i scope _ hasBody
    rcases List.mem_append.mp body with inits | last
    · exact List.mem_append_right _ inits
    · cases List.mem_singleton.mp last
      simp [hasBody, optionRefs]

theorem declPartsPresent (closed : a.Closed) {h : DeclRef} {n : DeclNode} (here : a.node h = .ok n) :
    ∀ k ∈ n.parts a, a.Present k := by
  have slot {k : TypeRef} {shape : Shape} (mem : k.as shape ∈ n.slots) : a.Has (k.as shape) := closed.slot here mem
  have stored {k : NodeRef} (mem : k ∈ n.slots.map (·.ref)) : a.Present k := closed.slotsPresent here mem
  cases n with
  | raw text => exact List.forall_mem_nil _
  | var data =>
    have shape : data.shape.slots.map (·.ref) = data.shape.parts := by
      cases data.shape <;> simp [VarShape.slots, VarShape.parts]
    intro k mem
    rcases List.mem_append.mp mem with rest | init
    · rcases List.mem_append.mp rest with declared | shaped
      · exact closed.declaratorPresent (slot (List.mem_cons_self ..)) k declared
      · exact stored (by simp [DeclNode.slots, shape, shaped])
    · exact stored (by simp [DeclNode.slots, init])
  | function data => exact closed.functionPartsPresent here
  | splitForward func =>
    have split : a.Has (func.as .splitFunction) := closed.slot here (List.mem_singleton_self _)
    obtain ⟨data, found⟩ := split.splitFunction
    simp only [DeclNode.parts, found]
    exact fun k mem => closed.functionPartsPresent found k (List.mem_append_left _ mem)
  | aggregate ty forward =>
    cases forward with
    | true => exact List.forall_mem_nil _
    | false => exact fun k mem => stored mem
  | enumeration ty forward =>
    cases forward with
    | true =>
      obtain ⟨data, found⟩ := (slot (List.mem_singleton_self _)).enumeration
      simp only [DeclNode.parts, found]
      exact fun k mem => closed.typePartsPresent found k (List.mem_append_left _ mem)
    | false => exact fun k mem => stored mem
  | typeDef ty =>
    obtain ⟨name, aliased, found⟩ := (slot (List.mem_singleton_self _)).synonym
    simp only [DeclNode.parts, found]
    exact closed.declaratorPresent (closed.slot found (List.mem_singleton_self _))
  | usingType ty =>
    obtain ⟨name, aliased, found⟩ := (slot (List.mem_singleton_self _)).synonym
    simp only [DeclNode.parts, found]
    exact fun k mem => closed.slotsPresent found mem
  | template params inner =>
    intro k mem
    refine stored ?_
    simpa [DeclNode.parts, DeclNode.slots, or_comm] using mem

theorem partsPresent (closed : a.Closed) {r : NodeRef} (present : a.Present r) : ∀ k ∈ a.parts r, a.Present k := by
  obtain ⟨n, here⟩ := present.node
  unfold Arena.parts
  rw [here]
  obtain ⟨c, arena, index⟩ := r
  cases c with
  | type => exact closed.typePartsPresent here
  | decl => exact closed.declPartsPresent here
  | expr => exact fun _ mem => closed.slotsPresent here (ExprNode.partsStored n mem)
  | stmt => exact fun _ mem => closed.slotsPresent here (StmtNode.partsStored n mem)
  | directive => exact fun _ mem => closed.slotsPresent here (DirectiveNode.partsStored n mem)
  | scope =>
    intro k mem
    refine closed.slotsPresent here ?_
    obtain ⟨e, listed, rfl⟩ := List.mem_map.mp mem
    exact List.mem_map.mpr ⟨e.slot, List.mem_append_right _ (List.mem_map_of_mem listed), rfl⟩

end Arena.Closed

end CSource
