import CSource.Proofs.Parts
import CSource.Render.Text

/-!
What is written for a node. In a closed arena the pieces of every node are code and its parts, in the order of the
parts, and nowhere does the writing stop.
-/

namespace CSource

namespace Pieces

def steps : Pieces → List (Except Misuse NodeRef)
  | [] => []
  | .code _ :: rest => steps rest
  | .child r :: rest => .ok r :: steps rest
  | .fault m :: rest => .error m :: steps rest

@[simp] theorem stepsNil : steps [] = [] := rfl

@[simp] theorem stepsCode (text : String) (rest : Pieces) : steps (.code text :: rest) = steps rest := rfl

@[simp] theorem stepsChild (r : NodeRef) (rest : Pieces) : steps (.child r :: rest) = .ok r :: steps rest := rfl

@[simp] theorem stepsAppend (ps qs : Pieces) : steps (ps ++ qs) = steps ps ++ steps qs := by
  induction ps with
  | nil => rfl
  | cons p ps ih => cases p <;> simp [steps, ih]

@[simp] theorem stepsFlatMap {α : Type} (f : α → Pieces) (xs : List α) :
    steps (xs.flatMap f) = xs.flatMap fun x => steps (f x) := by
  induction xs with
  | nil => rfl
  | cons x xs ih => simp [ih]

@[simp] theorem stepsOfText (text : String) : steps (ofText text) = [] := rfl

@[simp] theorem stepsOfHandle {c : Category} (h : Handle c) : steps (ofHandle h) = [.ok h.ref] := rfl

@[simp] theorem stepsInParens (ps : Pieces) : steps (inParens ps) = steps ps := by
  simp [inParens]

@[simp] theorem stepsInBrackets (ps : Pieces) : steps (inBrackets ps) = steps ps := by
  simp [inBrackets]

@[simp] theorem stepsInBraces (ps : Pieces) : steps (inBraces ps) = steps ps := by
  simp [inBraces]

@[simp] theorem stepsSeparated (separator : String) (items : List Pieces) :
    steps (separated separator items) = items.flatMap steps := by
  induction items with
  | nil => rfl
  | cons item items ih =>
    cases items with
    | nil => simp [separated]
    | cons next rest =>
      rw [separated, stepsAppend, stepsCode, ih]
      rfl

@[simp] theorem stepsCommaHandles {c : Category} (hs : List (Handle c)) :
    steps (commaHandles hs) = (refsOf hs).map .ok := by
  induction hs with
  | nil => rfl
  | cons h hs ih => simp_all [commaHandles]

@[simp] theorem stepsFlagged (flags : List (Bool × String)) : steps (flagged flags) = [] := by
  unfold flagged
  induction flags.filter (·.1) with
  | nil => rfl
  | cons flag flags ih => exact ih

@[simp] theorem stepsVariadicMark (hasParams variadic : Bool) : steps (variadicMark hasParams variadic) = [] := by
  cases variadic <;> rfl

@[simp] theorem stepsParams {c : Category} (hs : List (Handle c)) (variadic : Bool) :
    steps (params hs variadic) = (refsOf hs).map .ok := by
  simp [params]

@[simp] theorem stepsOption {α : Type} (f : α → Pieces) (x : Option α) :
    steps (ofOption f x) = x.toList.flatMap fun x => steps (f x) := by
  cases x <;> simp [ofOption]

@[simp] theorem stepsHandles {c : Category} (hs : List (Handle c)) :
    (hs.flatMap fun h => [.ok h.ref] : List (Except Misuse NodeRef)) = (refsOf hs).map .ok := by
  induction hs with
  | nil => rfl
  | cons h hs ih => simp_all

@[simp] theorem stepsEnclosed (braced : Bool) (args : List ExprRef) :
    steps (Render.enclosed braced args) = (refsOf args).map .ok := by
  cases braced <;> simp [Render.enclosed]

end Pieces

section Steps

open Pieces Render

@[simp] theorem stepsBlock (body : ScopeRef) : steps (block body) = [.ok body.ref] := by
  simp [block]

@[simp] theorem stepsCondition (init : Option DeclRef) (cond : ExprRef) :
    steps (condition init cond) = (optionRefs init ++ [cond.ref]).map .ok := by
  simp [condition, optionRefs]

@[simp] theorem stepsElseIf (b : ElseIf) :
    steps (elseIf b) = (optionRefs b.init ++ [b.cond.ref, b.body.ref]).map .ok := by
  simp [elseIf]

@[simp] theorem stepsHandler (h : Handler) : steps (handler h) = (optionRefs h.decl ++ [h.body.ref]).map .ok := by
  unfold handler
  cases h.decl <;> simp [optionRefs]

theorem stmtSteps (n : StmtNode) : steps (stmt n) = n.parts.map .ok := by
  cases n with
  | ifElse data => simp [stmt, Render.ifElse, StmtNode.parts, optionRefs, List.map_flatMap]
  | forLoop init cond step body => cases init <;> simp [stmt, StmtNode.parts, forHeader, optionRefs]
  | returnValue value | throwValue value => simp [stmt, StmtNode.parts, jump, optionRefs]
  | label name inner => cases inner <;> simp [stmt, StmtNode.parts, optionRefs]
  | caseLabel data =>
    simp only [stmt, Render.caseLabel, StmtNode.parts]
    cases data.value <;> simp [optionRefs]
  | tryCatch data => simp [stmt, StmtNode.parts, List.map_flatMap]
  | _ => simp [stmt, StmtNode.parts, optionRefs]

theorem directiveSteps (n : DirectiveNode) : steps (directive n) = n.parts.map .ok := by
  cases n with
  | define name value => cases value <;> rfl
  | defineFunction name ps body =>
    simp [directive, DirectiveNode.parts]
  | conditional data =>
    have head : steps (conditionHead data.head) = data.head.parts.map .ok := by cases data.head <;> rfl
    simp [directive, Render.conditional, DirectiveNode.parts, head, elif, optionRefs, List.map_flatMap]
  | namespaceBlock name body => simp [directive, DirectiveNode.parts]
  | _ => rfl

variable {a : Arena}

theorem stepsName (closed : a.Closed) {d : DeclRef} {shape : Shape} (has : a.Has (d.as shape)) :
    steps (ofName (a.declName d)) = [] := by
  obtain ⟨name, found⟩ := closed.declName has
  rw [found]
  rfl

theorem stepsTag {ty : TypeRef} {shape : Shape} (has : a.Has (ty.as shape))
    (tag : shape = .aggregate ∨ shape = .enumeration ∨ shape = .synonym) (keyword : String) :
    steps (taggedName keyword (a.tagName ty)) = [] := by
  obtain ⟨name, found⟩ := has.tagName tag
  rw [found]
  rfl

theorem stepsNamedType (closed : a.Closed) {d : DeclRef} (has : a.Has d.plain) : steps (namedType a d) = [] := by
  obtain ⟨n, here, _⟩ := has.found
  unfold namedType
  rw [here]
  cases n with
  | aggregate ty forward =>
    have slot : a.Has (ty.as .aggregate) := closed.slot here (List.mem_singleton_self _)
    obtain ⟨data, found⟩ := slot.aggregate
    have read : a.aggregateAt ty = .ok data := by
      unfold Arena.aggregateAt
      rw [found]
      rfl
    show steps (ofExcept (a.aggregateAt ty >>= _)) = []
    rw [read]
    show steps (if a.dialect.isCxx = true then _ else _) = []
    split
    · exact stepsName closed has
    · exact stepsTag slot (.inl rfl) _
  | enumeration ty forward =>
    have slot : a.Has (ty.as .enumeration) := closed.slot here (List.mem_singleton_self _)
    show steps (if a.dialect.isCxx = true then _ else _) = []
    split
    · exact stepsName closed has
    · exact stepsTag slot (.inr (.inl rfl)) _
  | _ => exact stepsName closed has

@[simp] theorem stepsArraySizes (sizes : List ExprRef) : steps (arraySizes sizes) = (refsOf sizes).map .ok := by
  cases sizes with
  | nil => rfl
  | cons size sizes => simp [arraySizes]

@[simp] theorem stepsTemplateArgs (args : List TemplateArg) :
    steps (templateArgs args) = (args.map (·.ref)).map .ok := by
  unfold templateArgs
  rw [stepsSeparated]
  induction args with
  | nil => rfl
  | cons arg args ih => simp_all

theorem stepsInstantiation (closed : a.Closed) {d : DeclRef} (has : a.Has d.plain) (args : List TemplateArg) :
    steps (instantiation a d args) = (args.map (·.ref)).map .ok := by
  simp [instantiation, stepsName closed has]

theorem stepsEnumHead (data : Enumeration) : steps (enumHead data) = (optionRefs data.underlying).map .ok := by
  simp [enumHead, optionRefs]

theorem stepsBaseList (bases : List Base) : steps (baseList bases) = (bases.map (·.ty.ref)).map .ok := by
  have each : steps (separated "," (bases.map fun base => .code base.access.keyword :: .code " " :: ofHandle base.ty)) =
      (bases.map (·.ty.ref)).map .ok := by
    rw [stepsSeparated]
    induction bases with
    | nil => rfl
    | cons base bases ih => simp_all
  cases bases with
  | nil => rfl
  | cons base bases => exact each

@[simp] theorem stepsRegion (r : Region) : steps (region r) = [.ok r.scope.ref] := by
  cases r with
  | mk access scope => cases access <;> rfl

theorem stepsRegions (regions : List Region) :
    steps (regions.flatMap region) = (regions.map (·.scope.ref)).map .ok := by
  induction regions with
  | nil => rfl
  | cons r regions ih => simp_all

theorem typeSteps (closed : a.Closed) {h : TypeRef} {n : TypeNode} (here : a.node h = .ok n) :
    steps (type a n) = n.parts.map .ok := by
  cases n with
  | named d => exact stepsNamedType closed (closed.slot here (List.mem_singleton_self _))
  | instantiation template args => exact stepsInstantiation closed (closed.slot here (List.mem_cons_self ..)) args
  | aggregate data =>
    have head : steps (aggregateHead data) = [] := rfl
    simp only [type, aggregate, TypeNode.parts, stepsAppend, stepsInBraces, stepsFlagged, head, stepsBaseList,
      stepsRegions, List.map_append, List.nil_append]
  | enumeration data =>
    simp [type, Render.enumeration, TypeNode.parts, stepsEnumHead, enumMember, optionRefs, List.map_flatMap]
  | _ => simp [type, TypeNode.parts]

@[simp] theorem stepsNameSuffix (name : String) : steps (nameSuffix name) = [] := by
  unfold nameSuffix
  split <;> rfl

theorem stepsDeclaratorFound {ty : TypeRef} {n : TypeNode} (here : a.node ty = .ok n)
    (targets : ∀ pointee, n = .pointer pointee → ∃ m, a.node pointee = .ok m) (name : String) :
    steps (declarator a ty name) = (a.declaratorParts ty).map .ok := by
  unfold declarator Arena.declaratorParts
  rw [here]
  cases n with
  | function ret params variadic =>
    show steps (.child ret.ref :: nameSuffix name ++ Pieces.params params variadic) = _
    simp
  | pointer pointee =>
    obtain ⟨m, there⟩ := targets pointee rfl
    show steps (ofExcept (a.node pointee >>= _)) = _
    rw [there]
    cases m with
    | function ret params variadic =>
      show steps (.child ret.ref :: .code "(*" :: .code name :: .code ")" :: Pieces.params params variadic) = _
      simp [there]
    | _ =>
      show steps (.child ty.ref :: nameSuffix name) = _
      simp [there]
  | array element sizes =>
    show steps (.child element.ref :: nameSuffix name ++ arraySizes sizes) = _
    simp
  | _ =>
    show steps (.child ty.ref :: nameSuffix name) = _
    simp

theorem stepsDeclarator (closed : a.Closed) {ty : TypeRef} (has : a.Has ty.plain) (name : String) :
    steps (declarator a ty name) = (a.declaratorParts ty).map .ok := by
  obtain ⟨n, here, _⟩ := has.found
  refine stepsDeclaratorFound here ?_ name
  rintro pointee rfl
  have slot : a.Has pointee.plain := closed.slot here (List.mem_singleton_self _)
  obtain ⟨m, there, _⟩ := slot.found
  exact ⟨m, there⟩

@[simp] theorem stepsVarShape (shape : VarShape) : steps (varShape shape) = shape.parts.map .ok := by
  cases shape <;> simp [varShape, VarShape.parts]

theorem stepsSingles (ps : Pieces) : (ps.map ([·])).flatMap steps = steps ps := by
  induction ps with
  | nil => rfl
  | cons p ps ih =>
    rw [List.map_cons, List.flatMap_cons, ih]
    exact (stepsAppend [p] ps).symm

theorem stepsSignature {data : FuncDecl} (member : ∀ m, data.method = some m → a.Has (m.parent.as .aggregate))
    (style : SignatureStyle) : steps (signature a data style) = data.signatureParts.map .ok := by
  have name : steps (signatureName a data style) = [] := by
    unfold signatureName
    split <;> try rfl
    rename_i m isMember
    obtain ⟨name, found⟩ := (member m isMember).tagName (.inl rfl)
    rw [found]
    rfl
  have tail : steps (signatureTail data style) = [] := by
    unfold signatureTail
    rw [stepsSeparated, stepsSingles, stepsFlagged]
  simp [signature, signatureQualifiers, FuncDecl.signatureParts, name, tail, optionRefs]

theorem stepsMemberInits (inits : List MemberInit) :
    steps (memberInits inits) = (inits.flatMap (refsOf ·.args)).map .ok := by
  have each : steps (separated "," (inits.map memberInit)) = (inits.flatMap (refsOf ·.args)).map .ok := by
    rw [stepsSeparated]
    induction inits with
    | nil => rfl
    | cons i inits ih => simp_all [memberInit]
  cases inits with
  | nil => rfl
  | cons i inits => exact each

theorem stepsFunctionEnd (data : FuncDecl) : steps (functionEnd data) = data.bodyParts.map .ok := by
  unfold functionEnd FuncDecl.bodyParts
  cases data.special with
  | some special => rfl
  | none => cases data.body <;> simp [stepsMemberInits]

theorem declSteps (closed : a.Closed) {h : DeclRef} {n : DeclNode} (here : a.node h = .ok n) :
    steps (decl a n) = (n.parts a).map .ok := by
  have slot {k : TypeRef} {shape : Shape} (mem : k.as shape ∈ n.slots) : a.Has (k.as shape) := closed.slot here mem
  have member {d : DeclRef} {data : FuncDecl} (found : a.node d = .ok (.function data)) :
      ∀ m, data.method = some m → a.Has (m.parent.as .aggregate) := by
    intro m isMember
    exact closed.slot found (by simp [Node.slots, DeclNode.slots, isMember])
  cases n with
  | var data =>
    have declared := stepsDeclarator closed (slot (List.mem_cons_self ..)) (declaredName data)
    simp [decl, Render.var, DeclNode.parts, declared, initializer, optionRefs]
  | function data =>
    simp [decl, Render.function, DeclNode.parts, stepsSignature (member here), stepsFunctionEnd]
  | splitForward func =>
    have split : a.Has (func.as .splitFunction) := closed.slot here (List.mem_singleton_self _)
    obtain ⟨data, found⟩ := split.splitFunction
    have read : a.functionAt func = .ok data := by
      unfold Arena.functionAt
      rw [found]
      rfl
    simp only [decl, DeclNode.parts, read, found]
    show steps (signature a data .forward ++ ofText ";") = _
    simp [stepsSignature (member found)]
  | aggregate ty forward =>
    obtain ⟨data, found⟩ := (slot (List.mem_singleton_self _)).aggregate
    cases forward with
    | false => rfl
    | true =>
      show steps (tagReference a ty) = _
      unfold tagReference
      rw [found]
      rfl
  | enumeration ty forward =>
    obtain ⟨data, found⟩ := (slot (List.mem_singleton_self _)).enumeration
    cases forward with
    | false => rfl
    | true =>
      simp only [DeclNode.parts, found]
      show steps (tagReference a ty) = _
      unfold tagReference
      rw [found]
      exact stepsEnumHead data
  | typeDef ty =>
    obtain ⟨name, aliased, found⟩ := (slot (List.mem_singleton_self _)).synonym
    have target : a.Has aliased.plain := closed.slot found (List.mem_singleton_self _)
    simp only [decl, synonymAt, DeclNode.parts, found]
    exact stepsDeclarator closed target name.text
  | usingType ty =>
    obtain ⟨name, aliased, found⟩ := (slot (List.mem_singleton_self _)).synonym
    simp only [decl, synonymAt, DeclNode.parts, found]
    rfl
  | _ => simp [decl, DeclNode.parts]

theorem stepsDesignators (fields : List Designator) :
    (fields.map designator).flatMap steps = (fields.map (·.value.ref)).map .ok := by
  induction fields with
  | nil => rfl
  | cons d fields ih => simp_all [designator]

@[simp] theorem stepsAssociation (assoc : Association) :
    steps (association assoc) = (optionRefs assoc.ty ++ [assoc.value.ref]).map .ok := by
  unfold association
  cases assoc.ty <;> simp [optionRefs]

theorem exprSteps (closed : a.Closed) {h : ExprRef} {n : ExprNode} (here : a.node h = .ok n) :
    steps (expr a n) = n.parts.map .ok := by
  cases n with
  | var d => exact stepsName closed (closed.slot here (List.mem_singleton_self _))
  | instantiation template args => exact stepsInstantiation closed (closed.slot here (List.mem_cons_self ..)) args
  | unary op x leading => cases leading <;> simp [expr, ExprNode.parts]
  | fold op pack kind => cases kind <;> simp [expr, Render.fold, ExprNode.parts, Fold.parts]
  | designated fields => simp [expr, ExprNode.parts, stepsDesignators]
  | generic control assocs => simp [expr, ExprNode.parts, List.map_flatMap]
  | lambda data => simp [expr, ExprNode.parts, Render.lambda, optionRefs]
  | new data => simp [expr, ExprNode.parts, Render.new, optionRefs]
  | _ => simp [expr, ExprNode.parts]

theorem scopeSteps (n : ScopeNode) : steps (scope n) = (n.entries.map (·.ref)).map .ok := by
  have each (e : Entry) : steps (.child e.ref :: if n.kind.endsLines then [.code "\n"] else []) = [.ok e.ref] := by
    split <;> rfl
  unfold scope
  rw [stepsFlatMap]
  induction n.entries with
  | nil => rfl
  | cons e entries ih => rw [List.flatMap_cons, each, ih]; rfl

theorem childListed {n : ScopeNode} {r : NodeRef} (mem : .child r ∈ scope n) : ∃ e ∈ n.entries, r = e.ref := by
  obtain ⟨e, listed, inside⟩ := List.mem_flatMap.mp mem
  refine ⟨e, listed, ?_⟩
  cases n.kind.endsLines <;> simpa using inside

theorem Arena.piecesOf {c : Category} {h : Handle c} {n : Node c} (here : a.node h = .ok n) :
    pieces a h.ref = Render.node a c n := by
  have same : a.node h.ref.handle = .ok n := here
  unfold pieces
  rw [same]
  rfl

theorem Arena.Closed.steps (closed : a.Closed) {r : NodeRef} (present : a.Present r) :
    steps (pieces a r) = (a.parts r).map .ok := by
  obtain ⟨n, here⟩ := present.node
  unfold pieces Arena.parts
  rw [here]
  obtain ⟨c, arena, index⟩ := r
  cases c with
  | type => exact typeSteps closed here
  | decl => exact declSteps closed here
  | expr => exact exprSteps closed here
  | stmt => exact stmtSteps n
  | directive => exact directiveSteps n
  | scope => exact scopeSteps n

end Steps

end CSource
