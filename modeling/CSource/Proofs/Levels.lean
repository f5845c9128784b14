import CSource.Proofs.Leaves

/-!
The code of every node is level: what it opens it closes, around its operands, its name or its body, as long as its
leaves are balanced. One lemma for each combinator of the rendering, then one case for each kind of node.
-/

namespace CSource

open Pieces Render

section Helpers

variable {a : Arena}

theorem levelSegments {name : Except Misuse QualName} (each : ∀ s ∈ segmentsOf name, Balanced s) :
    Level (ofName name) :=
  levelOfName fun n found => by simpa [segmentsOf, found] using each

@[simp] theorem levelEnclosedArgs (braced : Bool) (args : List ExprRef) : Level (enclosed braced args) := by
  cases braced <;> simp [enclosed]

@[simp] theorem levelBlock (body : ScopeRef) : Level (block body) := by simp [block]

@[simp] theorem levelArraySizes (sizes : List ExprRef) : Level (arraySizes sizes) := by
  cases sizes <;> simp +decide [arraySizes]

@[simp] theorem levelTemplateArgs (args : List TemplateArg) : Level (templateArgs args) := by
  exact levelMapped (by decide) fun arg _ => by simp

theorem levelInstantiation {d : DeclRef} (args : List TemplateArg)
    (each : ∀ s ∈ segmentsOf (a.declName d), Balanced s) : Level (instantiation a d args) := by
  simp +decide [instantiation, levelSegments each]

theorem levelTagged {keyword : String} {name : Except Misuse QualName} (plain : Balanced keyword)
    (each : ∀ s ∈ segmentsOf name, Balanced s) : Level (taggedName keyword name) := by
  simp +decide [taggedName, plain, levelSegments each]

theorem kindBalanced (kind : AggregateKind) : Balanced kind.keyword := by cases kind <;> decide

theorem accessBalanced (access : Access) : Balanced access.keyword := by cases access <;> decide

theorem tagNamed {d : DeclRef} {ty : TypeRef} {forward : Bool}
    (found : a.node d = .ok (.aggregate ty forward) ∨ a.node d = .ok (.enumeration ty forward)) :
    a.declName d = a.tagName ty := by
  rcases found with found | found <;> simp [Arena.declName, Arena.declNameWithin, found, bind, Except.bind]

theorem levelNamedType {d : DeclRef} (each : ∀ s ∈ segmentsOf (a.declName d), Balanced s) : Level (namedType a d) := by
  unfold namedType
  cases found : a.node d with
  | error cause => exact levelNil
  | ok n =>
    cases n with
    | aggregate ty forward =>
      have named := tagNamed (.inl found)
      cases tag : a.aggregateAt ty with
      | error cause => simp [tag, bind, Except.bind, Pieces.ofExcept]
      | ok data =>
        simp only [tag, bind, Except.bind, pure, Except.pure, Pieces.ofExcept]
        split_ifs
        · exact levelSegments each
        · exact levelTagged (kindBalanced _) (named ▸ each)
    | enumeration ty forward =>
      have named := tagNamed (.inr found)
      simp only [bind, Except.bind, pure, Except.pure, Pieces.ofExcept]
      split_ifs
      · exact levelSegments each
      · exact levelTagged (by decide) (named ▸ each)
    | _ => exact levelSegments each

theorem levelAggregateHead {data : Aggregate} (each : ∀ s ∈ data.name.segments, Balanced s) :
    Level (aggregateHead data) :=
  levelTagged (kindBalanced _) each

theorem levelEnumHead {data : Enumeration} (each : ∀ s ∈ data.name.segments, Balanced s) : Level (enumHead data) := by
  have key : Level (ofOption (fun key : EnumKey => [.code key.keyword, .code " "]) data.key) := by
    cases data.key with
    | none => exact levelNil
    | some key => cases key <;> exact fun _ => rfl
  have underlying : Level (ofOption (fun ty : TypeRef => .code ":" :: ofHandle ty) data.underlying) :=
    levelOption fun _ _ => by simp +decide
  have name : Level (ofText data.name.text) := levelOfText.mpr (.named each)
  simp +decide [enumHead, key, underlying, name]

theorem levelNameSuffix {name : String} (balanced : Balanced name) : Level (nameSuffix name) := by
  unfold nameSuffix
  split_ifs <;> simp +decide [balanced]

theorem levelPointed {name : String} (balanced : Balanced name) (ps : Pieces) (rest : Level ps) :
    Level (.code "(*" :: .code name :: .code ")" :: ps) := by
  intro owed
  have inside : Balanced ("*" ++ name) := .append (by decide) balanced
  have shape : codes (.code "(*" :: .code name :: .code ")" :: ps) =
      '(' :: (("*" ++ name).toList ++ ')' :: codes ps) := by
    simp [codesCode]
  rw [shape, owedEnclosed rfl (balancedIff.mp inside)]
  exact rest owed

theorem levelDeclarator {name : String} (ty : TypeRef) (balanced : Balanced name) : Level (declarator a ty name) := by
  have suffix := levelNameSuffix balanced
  unfold declarator
  cases a.node ty with
  | error cause => exact levelNil
  | ok n =>
    cases n with
    | pointer pointee =>
      cases found : a.node pointee with
      | error cause => simp [found, bind, Except.bind, Pieces.ofExcept]
      | ok m =>
        cases m with
        | function ret ps variadic =>
          simpa [found, bind, Except.bind, pure, Except.pure, Pieces.ofExcept] using levelPointed balanced _ (by simp)
        | _ => simp [found, bind, Except.bind, pure, Except.pure, Pieces.ofExcept, plainDeclarator, suffix]
    | _ => simp [bind, Except.bind, pure, Except.pure, Pieces.ofExcept, plainDeclarator, suffix]

theorem levelVar {data : VarDecl} (each : ∀ s ∈ data.leaves, Balanced s) : Level (Render.var a data) := by
  have name : Balanced (declaredName data) := by
    unfold declaredName
    split_ifs with blank restricted
    · decide
    · exact .append (by decide) (.named (by simpa [VarDecl.leaves, blank] using each))
    · exact .named (by simpa [VarDecl.leaves, blank] using each)
  have shape : Level (varShape data.shape) := by cases data.shape <;> simp [varShape]
  have initial : Level (initializer data.init) := by cases data.init <;> simp +decide [initializer, ofOption]
  simp +decide [Render.var, levelDeclarator _ name, shape, initial]

theorem levelSignature {data : FuncDecl} {style : SignatureStyle}
    (each : ∀ s ∈ data.signatureLeaves a style, Balanced s) : Level (signature a data style) := by
  have quals : Level (signatureQualifiers data style) := by simp +decide [signatureQualifiers]
  have ret : Level (ofOption (fun ret : TypeRef => .child ret.ref :: ofText " ") data.ret) :=
    levelOption fun _ _ => by simp +decide
  have name : Level (signatureName a data style) := by
    cases style with
    | forward => exact levelOfText.mpr (List.forall_mem_singleton.mp each)
    | whole => exact levelOfText.mpr (.named each)
    | define =>
      unfold signatureName
      unfold FuncDecl.signatureLeaves at each
      cases member : data.method with
      | none => exact levelOfText.mpr (.named (by simpa [member] using each))
      | some m =>
        rw [member] at each
        obtain ⟨parent, last⟩ := List.forall_mem_append.mp each
        have own : Balanced data.name.last := List.forall_mem_singleton.mp last
        simp +decide [levelSegments parent, own]
  have tail : Level (signatureTail data style) := by
    refine levelMapped (by decide) fun piece mem => ?_
    obtain ⟨flag, listed, rfl⟩ := List.mem_map.mp mem
    have plain : Balanced flag.2 := by
      have among := (List.mem_filter.mp listed).1
      simp only [List.mem_cons, List.not_mem_nil, or_false] at among
      rcases among with rfl | rfl | rfl
      · exact (by decide : Balanced "const")
      · exact (by decide : Balanced "override")
      · exact (by decide : Balanced "final")
    exact (levelCode plain).mpr levelNil
  simp [signature, quals, ret, name, tail]

theorem levelMemberInit {i : MemberInit} (each : ∀ s ∈ i.member.segments, Balanced s) : Level (memberInit i) := by
  simp [memberInit, Balanced.named each]

theorem levelMemberInits {inits : List MemberInit} (each : ∀ s ∈ inits.flatMap (·.member.segments), Balanced s) :
    Level (memberInits inits) := by
  cases inits with
  | nil => exact levelNil
  | cons i inits =>
    refine (levelCode (by decide)).mpr (levelMapped (by decide) fun j mem => ?_)
    exact levelMemberInit fun s inside => each s (List.mem_flatMap.mpr ⟨j, mem, inside⟩)

theorem levelFunctionEnd {data : FuncDecl} (each : ∀ s ∈ data.bodyLeaves, Balanced s) : Level (functionEnd data) := by
  unfold functionEnd
  unfold FuncDecl.bodyLeaves at each
  cases special : data.special with
  | some mark => cases mark <;> exact fun _ => rfl
  | none =>
    cases defined : data.body with
    | none => exact fun _ => rfl
    | some body =>
      rw [special, defined] at each
      exact (levelAppend (levelMemberInits each)).mpr (levelBlock body)

theorem levelTagReference {ty : TypeRef} (each : ∀ s ∈ segmentsOf (a.tagName ty), Balanced s) :
    Level (tagReference a ty) := by
  unfold tagReference
  unfold Arena.tagName at each
  cases found : a.node ty with
  | error cause => exact levelNil
  | ok n =>
    cases n with
    | aggregate data =>
      rw [found] at each
      exact levelAggregateHead each
    | enumeration data =>
      rw [found] at each
      exact levelEnumHead each
    | _ => exact levelNil

theorem levelRegions (regions : List Region) : Level (regions.flatMap region) := by
  refine levelFlatMap fun r _ => ?_
  cases access : r.access <;> simp +decide [region, access, accessBalanced, ofOption]

theorem levelBaseList (bases : List Base) : Level (baseList bases) := by
  cases bases with
  | nil => exact levelNil
  | cons base bases =>
    refine (levelCode (by decide)).mpr (levelMapped (by decide) fun b _ => ?_)
    simp +decide [accessBalanced]

theorem levelCaptures {captures : List Capture} (each : ∀ s ∈ captures.flatMap (·.leaves), Balanced s) :
    Level (separated "," (captures.map (ofText ·.text))) := by
  refine levelMapped (by decide) fun capture mem => levelOfText.mpr ?_
  have own : ∀ s ∈ capture.leaves, Balanced s :=
    fun s inside => each s (List.mem_flatMap.mpr ⟨capture, mem, inside⟩)
  cases capture with
  | byValue name => exact List.forall_mem_singleton.mp own
  | byReference name => exact .append (by decide) (List.forall_mem_singleton.mp own)
  | _ => decide

theorem levelMembers {members : List EnumMember} (each : ∀ s ∈ members.map (·.name), Balanced s) :
    Level (members.flatMap enumMember) := by
  refine levelFlatMap fun m mem => ?_
  have own : Balanced m.name := each _ (List.mem_map_of_mem mem)
  cases value : m.value <;> simp +decide [enumMember, own, value, ofOption]

theorem synonymNamed {ty aliased : TypeRef} {name : QualName} (found : synonymAt a ty = .ok (name, aliased)) :
    a.tagName ty = .ok name := by
  unfold synonymAt at found
  unfold Arena.tagName
  cases there : a.node ty with
  | error cause => simp [there, bind, Except.bind] at found
  | ok n =>
    rw [there] at found
    cases n with
    | synonym own other =>
      cases Except.ok.inj found
      rfl
    | _ => contradiction

end Helpers

theorem typeLevel {a : Arena} {n : TypeNode} (each : ∀ s ∈ n.leaves a, Balanced s) : Level (type a n) := by
  cases n with
  | raw spelling => exact levelOfText.mpr (List.forall_mem_singleton.mp each)
  | aggregate data =>
    simp +decide [type, aggregate, levelAggregateHead each, levelBaseList, levelRegions]
  | enumeration data =>
    obtain ⟨name, members⟩ := List.forall_mem_append.mp each
    simp [type, Render.enumeration, levelEnumHead name, levelMembers members]
  | named d => exact levelNamedType each
  | instantiation d args => exact levelInstantiation args each
  | synonym name aliased => exact levelOfText.mpr (.named each)
  | parameter keyword => cases keyword <;> exact fun _ => rfl
  | _ => simp +decide [type]

theorem declLevel {a : Arena} {n : DeclNode} (each : ∀ s ∈ n.leaves a, Balanced s) : Level (decl a n) := by
  cases n with
  | raw text => exact levelOfText.mpr (List.forall_mem_singleton.mp each)
  | var data => exact levelVar each
  | function data =>
    obtain ⟨head, tail⟩ := List.forall_mem_append.mp each
    exact (levelAppend (levelSignature head)).mpr (levelFunctionEnd tail)
  | splitForward func =>
    unfold DeclNode.leaves at each
    show Level (Pieces.ofExcept (a.functionAt func >>= _))
    cases found : a.functionAt func with
    | error cause => exact levelNil
    | ok data => exact (levelAppend (levelSignature (by simpa [found] using each))).mpr (fun _ => rfl)
  | aggregate ty forward | enumeration ty forward =>
    cases forward with
    | true => exact levelTagReference each
    | false => exact levelNil
  | typeDef ty =>
    show Level (Pieces.ofExcept (synonymAt a ty >>= _))
    cases found : synonymAt a ty with
    | error cause => exact levelNil
    | ok synonym =>
      have named : ∀ s ∈ synonym.1.segments, Balanced s := by
        simpa [DeclNode.leaves, synonymNamed found, segmentsOf] using each
      exact (levelCode (by decide)).mpr (levelDeclarator _ (.named named))
  | usingType ty =>
    show Level (Pieces.ofExcept (synonymAt a ty >>= _))
    cases found : synonymAt a ty with
    | error cause => exact levelNil
    | ok synonym =>
      have named : ∀ s ∈ synonym.1.segments, Balanced s := by
        simpa [DeclNode.leaves, synonymNamed found, segmentsOf] using each
      exact (levelCode (by decide)).mpr ((levelCode (.named named)).mpr ((levelCode (by decide)).mpr (levelOfHandle _)))
  | template ps inner => simp +decide [decl]

theorem exprLevel {a : Arena} {n : ExprNode} (each : ∀ s ∈ n.leaves a, Balanced s) : Level (expr a n) := by
  cases n with
  | raw text => exact levelOfText.mpr (List.forall_mem_singleton.mp each)
  | qualName name => exact levelOfText.mpr (.named each)
  | var d => exact levelSegments each
  | unary op x leading =>
    have balanced := List.forall_mem_singleton.mp each
    cases leading <;> simp [expr, balanced]
  | binary op lhs rhs =>
    have balanced := List.forall_mem_singleton.mp each
    simp [expr, balanced]
  | userLiteral x suffix =>
    have balanced := List.forall_mem_singleton.mp each
    simp +decide [expr, balanced]
  | designated fields =>
    refine levelInBraces (levelMapped (by decide) fun d mem => ?_)
    have balanced : Balanced d.field := each _ (List.mem_map_of_mem mem)
    simp +decide [designator, balanced]
  | generic control assocs =>
    have inside : Level (assocs.flatMap association) := by
      refine levelFlatMap fun assoc _ => ?_
      cases ty : assoc.ty <;> simp +decide [association, ty]
    simp +decide [expr, inside]
  | lambda data =>
    have ret : Level (ofOption (fun ret : TypeRef => .code "->" :: ofHandle ret) data.ret) :=
      levelOption fun _ _ => by simp +decide
    simp [expr, Render.lambda, levelCaptures each, ret]
  | new data =>
    have placement : Level (ofOption (fun e : ExprRef => inParens (ofHandle e)) data.placement) :=
      levelOption fun _ _ => by simp
    have size : Level (ofOption (fun e : ExprRef => inBrackets (ofHandle e)) data.arraySize) :=
      levelOption fun _ _ => by simp
    simp +decide [expr, Render.new, placement, size]
  | delete x array => cases array <;> simp +decide [expr]
  | instantiation d args => exact levelInstantiation args each
  | fold op pack kind =>
    have balanced := List.forall_mem_singleton.mp each
    cases kind <;> simp +decide [expr, Render.fold, balanced]
  | _ => simp +decide [expr]

@[simp] theorem levelCondition (init : Option DeclRef) (cond : ExprRef) : Level (condition init cond) := by
  cases init <;> simp +decide [condition, ofOption]

@[simp] theorem levelJump {keyword : String} (plain : Balanced keyword) (value : Option ExprRef) :
    Level (jump keyword value) := by
  cases value <;> simp +decide [jump, plain, ofOption]

theorem stmtLevel {n : StmtNode} (each : ∀ s ∈ n.leaves, Balanced s) : Level (stmt n) := by
  cases n with
  | raw text => exact levelOfText.mpr (List.forall_mem_singleton.mp each)
  | ifElse data =>
    have others : Level (data.elseIfs.flatMap elseIf) := levelFlatMap fun b _ => by simp +decide [elseIf]
    have last : Level (ofOption (fun scope : ScopeRef => .code "else" :: block scope) data.otherwise) :=
      levelOption fun _ _ => by simp +decide
    cases constexpr : data.isConstexpr <;> simp +decide [stmt, Render.ifElse, constexpr, others, last]
  | forLoop init cond step body =>
    have header : Level (forHeader init cond step) := by
      cases init <;> cases cond <;> cases step <;> simp +decide [forHeader, ofOption]
    simp +decide [stmt, header]
  | label name inner =>
    have balanced := List.forall_mem_singleton.mp each
    cases inner <;> simp +decide [stmt, balanced]
  | forRange d range body =>
    have inside : Level (.child d.ref :: .code ":" :: ofHandle range) := by simp +decide
    simp +decide [stmt, inside]
  | goto name =>
    have balanced := List.forall_mem_singleton.mp each
    simp +decide [stmt, balanced]
  | usingNamespace name => simp +decide [stmt, Balanced.named each]
  | switch data => simp +decide [stmt]
  | caseLabel data => cases value : data.value <;> simp +decide [stmt, Render.caseLabel, value]
  | tryCatch data =>
    have handlers : Level (data.handlers.flatMap handler) := by
      refine levelFlatMap fun h _ => ?_
      cases caught : h.decl <;> simp +decide [handler, caught]
    simp +decide [stmt, handlers]
  | _ => simp +decide [stmt]

theorem levelLine {keyword rest : String} (plain : Balanced keyword) (balanced : Balanced rest) :
    Level (line keyword rest) := by
  refine levelOfText.mpr ?_
  have blank : Balanced (if rest = "" then "" else " " ++ rest) := by
    split_ifs
    · decide
    · exact .append (by decide) balanced
  exact .append (.append (.append (by decide) plain) blank) (by decide)

theorem directiveLevel {n : DirectiveNode} (each : ∀ s ∈ n.leaves, Balanced s) : Level (directive n) := by
  cases n with
  | raw text => exact levelOfText.mpr (List.forall_mem_singleton.mp each)
  | includeFile path system =>
    have balanced := List.forall_mem_singleton.mp each
    cases system with
    | true => exact levelLine (by decide) (.append (.append (by decide) balanced) (by decide))
    | false => exact levelLine (by decide) (.append (.append (by decide) balanced) (by decide))
  | define name value =>
    obtain ⟨own, rest⟩ := List.forall_mem_cons.mp each
    cases value with
    | none => exact levelLine (by decide) own
    | some value => exact levelLine (by decide) (.append (.append own (by decide)) (rest _ (List.mem_singleton_self _)))
  | defineFunction name ps body =>
    obtain ⟨own, rest⟩ := List.forall_mem_cons.mp each
    have inside : Level (separated "," (ps.map ofText)) :=
      levelMapped (by decide) fun p mem => levelOfText.mpr (rest p mem)
    simp +decide [directive, own, inside]
  | undef name => exact levelLine (by decide) (List.forall_mem_singleton.mp each)
  | pragma text => exact levelLine (by decide) (List.forall_mem_singleton.mp each)
  | conditional data =>
    have head : Level (conditionHead data.head) := by
      unfold DirectiveNode.leaves at each
      cases found : data.head with
      | holds cond => simp +decide [conditionHead]
      | isDefined name | isUndefined name =>
        have balanced : Balanced name := List.forall_mem_singleton.mp (by simpa [found, Condition.leaves] using each)
        simp +decide [conditionHead, balanced]
    have others : Level (data.elifs.flatMap elif) := levelFlatMap fun e _ => by simp +decide [elif]
    have last : Level (ofOption (fun scope : ScopeRef => .code "\n#else\n" :: ofHandle scope) data.otherwise) :=
      levelOption fun _ _ => by simp +decide
    simp +decide [directive, Render.conditional, head, others, last]
  | namespaceBlock name body | usingNamespace name | usingName name =>
    simp +decide [directive, Balanced.named each]

theorem scopeLevel (n : ScopeNode) : Level (Render.scope n) := by
  refine levelFlatMap fun e _ => ?_
  cases n.kind.endsLines <;> simp +decide

theorem piecesLevel {a : Arena} {r : NodeRef} (each : ∀ s ∈ a.leaves r, Balanced s) : Level (pieces a r) := by
  unfold pieces
  unfold Arena.leaves at each
  cases found : a.node r.handle with
  | error cause => exact levelNil
  | ok n =>
    rw [found] at each
    have own := (List.forall_mem_append.mp each).1
    obtain ⟨c, arena, index⟩ := r
    cases c with
    | type => exact typeLevel own
    | decl => exact declLevel own
    | expr => exact exprLevel own
    | stmt => exact stmtLevel own
    | directive => exact directiveLevel own
    | scope => exact scopeLevel n

end CSource
