import CSource.Proofs.Functions

/-!
The two dialects stay apart. `cxxOnly` and `cOnly` say by the form of a node alone that one dialect has no text for
it; no such node is ever stored in an arena of the other dialect, whatever calls were made and refused.
-/

namespace CSource

def TypeNode.cxxOnly : TypeNode → Bool
  | reference _ | instantiation _ _ | pack _ | parameter _ => true
  | aggregate data =>
    data.kind == .classKind || data.isFinal || !data.bases.isEmpty || data.regions.any (·.access.isSome)
  | enumeration data => data.key.isSome
  | _ => false

def VarShape.isConstruct : VarShape → Bool
  | .construct _ _ => true
  | .plain | .array _ => false

def DeclNode.cxxOnly : DeclNode → Bool
  | template _ _ | usingType _ => true
  | var data => data.shape.isConstruct || data.quals.isInline
  | function f => f.quals.isConstexpr || f.method.isSome || f.kind != .free || !f.inits.isEmpty
  | _ => false

def ExprNode.cxxOnly : ExprNode → Bool
  | qualName _ | lambda _ | new _ | delete _ _ | userLiteral _ _ | instantiation _ _ | packExpansion _
  | fold _ _ _ => true
  | _ => false

def StmtNode.cxxOnly : StmtNode → Bool
  | forRange _ _ _ | throwValue _ | tryCatch _ | usingNamespace _ => true
  | ifElse data => data.isConstexpr || data.init.isSome || data.elseIfs.any (·.init.isSome)
  | switch data => data.init.isSome
  | _ => false

def DirectiveNode.cxxOnly : DirectiveNode → Bool
  | namespaceBlock _ _ | usingNamespace _ | usingName _ => true
  | _ => false

namespace Node

def cxxOnly : (c : Category) → Node c → Bool
  | .type, n => TypeNode.cxxOnly n
  | .decl, n => DeclNode.cxxOnly n
  | .expr, n => ExprNode.cxxOnly n
  | .stmt, n => StmtNode.cxxOnly n
  | .directive, n => DirectiveNode.cxxOnly n
  | .scope, _ => false

def cOnly : (c : Category) → Node c → Bool
  | .expr, .generic _ _ => true
  | .decl, .var data => data.quals.isRestrict
  | _, _ => false

def Spoken (d : Dialect) (c : Category) (n : Node c) : Prop := ∀ f ∈ features c n, d = f.dialect

theorem spoken : NodeLaw Spoken where
  void _ := nofun
  born _ allowed := allowed
  shared _ _ allowed := allowed
  grown _ allowed holds f mem := (allowed f mem).elim (holds f) id

end Node

theorem memUsedIf {used : Bool} {f g : Feature} : g ∈ usedIf used f ↔ used = true ∧ g = f := by
  cases used <;> simp [usedIf]

theorem TypeNode.cxxFeature {n : TypeNode} (only : n.cxxOnly = true) : ∃ f ∈ n.features, f.dialect = .cxx := by
  cases n with
  | aggregate data =>
    simp only [cxxOnly, Bool.or_eq_true] at only
    rcases only with ((isClass | isFinal) | based) | labeled
    · exact ⟨.classAggregate, by simp [features, memUsedIf, isClass], rfl⟩
    · exact ⟨.finalClass, by simp [features, memUsedIf, isFinal], rfl⟩
    · exact ⟨.baseClass, by simp [features, memUsedIf, based], rfl⟩
    · exact ⟨.accessSpecifier, by simp [features, memUsedIf, labeled], rfl⟩
  | enumeration data => exact ⟨.scopedEnum, memUsedIf.mpr ⟨only, rfl⟩, rfl⟩
  | _ => first | contradiction | exact ⟨_, List.mem_singleton_self _, rfl⟩

theorem DeclNode.cxxFeature {n : DeclNode} (lawful : Node.Lawful .decl n) (only : n.cxxOnly = true) :
    ∃ f ∈ n.features, f.dialect = .cxx := by
  cases n with
  | var data =>
    rcases Bool.or_eq_true_iff.mp only with constructed | inlined
    · obtain ⟨name, ty, init, shape, quals⟩ := data
      cases shape <;> first | contradiction | exact ⟨.constructorInitialization, List.mem_cons_self .., rfl⟩
    · exact ⟨.inlineVariable, by simp [features, memUsedIf, inlined], rfl⟩
  | function f =>
    have isLawful : f.Lawful := lawful
    -- a method link and member initializers are both signs of a kind other than free
    have isMember (kind : f.kind ≠ .free) : ∃ g ∈ (DeclNode.function f).features, g.dialect = .cxx :=
      ⟨.memberFunction, by simp [features, memUsedIf, kind], rfl⟩
    simp only [cxxOnly, Bool.or_eq_true] at only
    rcases only with ((constant | linked) | kind) | inits
    · exact ⟨.constexprFunction, by simp [features, memUsedIf, constant], rfl⟩
    · exact isMember (isLawful.member.mp linked)
    · exact isMember (by simpa using kind)
    · refine isMember ?_
      have constructs := isLawful.inits (by simpa using inits)
      simp [constructs]
  | _ => first | contradiction | exact ⟨_, List.mem_singleton_self _, rfl⟩

theorem StmtNode.cxxFeature {n : StmtNode} (only : n.cxxOnly = true) : ∃ f ∈ n.features, f.dialect = .cxx := by
  cases n with
  | ifElse data =>
    simp only [cxxOnly, Bool.or_eq_true] at only
    rcases only with (constant | init) | init
    · exact ⟨.ifConstexpr, by simp [features, memUsedIf, constant], rfl⟩
    · exact ⟨.ifInitializer, by simp [features, memUsedIf, init], rfl⟩
    · exact ⟨.ifInitializer, by simp [features, memUsedIf, init], rfl⟩
  | switch data => exact ⟨.switchInitializer, memUsedIf.mpr ⟨only, rfl⟩, rfl⟩
  | _ => first | contradiction | exact ⟨_, List.mem_singleton_self _, rfl⟩

namespace Node

theorem cxxFeature {c : Category} {n : Node c} (lawful : Lawful c n) (only : cxxOnly c n = true) :
    ∃ f ∈ features c n, f.dialect = .cxx := by
  cases c with
  | type => exact TypeNode.cxxFeature only
  | decl => exact DeclNode.cxxFeature lawful only
  | expr => cases n <;> first | contradiction | exact ⟨_, List.mem_singleton_self _, rfl⟩
  | stmt => exact StmtNode.cxxFeature only
  | directive => cases n <;> first | contradiction | exact ⟨_, List.mem_singleton_self _, rfl⟩
  | scope => contradiction

theorem cFeature {c : Category} {n : Node c} (only : cOnly c n = true) : ∃ f ∈ features c n, f.dialect = .c := by
  cases c with
  | decl =>
    cases n <;> try contradiction
    rename_i data
    have restrict : data.quals.isRestrict = true := only
    exact ⟨.restrictQualifier, by simp [features, DeclNode.features, memUsedIf, restrict], rfl⟩
  | expr => cases n <;> first | contradiction | exact ⟨_, List.mem_singleton_self _, rfl⟩
  | _ => contradiction

end Node

/-- No arena that can be reached holds a node that only the other dialect can write. -/
theorem dialectsStayApart {p : Policy} {w : World} (reachable : w.Reachable p) {n : Nat} {a : Arena}
    (here : w.session.arenas[n]? = some a) {c : Category} {i : Nat} {m : Node c} (found : (a.nodes c)[i]? = some m) :
    (a.dialect = .c → Node.cxxOnly c m = false) ∧ (a.dialect = .cxx → Node.cOnly c m = false) := by
  have spoken := Node.spoken.reachable reachable here c i m found
  have lawful := Node.lawful.reachable reachable here c i m found
  constructor
  · intro isC
    cases only : Node.cxxOnly c m with
    | false => rfl
    | true =>
      obtain ⟨f, mem, isCxx⟩ := Node.cxxFeature lawful only
      simp [spoken f mem, isCxx] at isC
  · intro isCxx
    cases only : Node.cOnly c m with
    | false => rfl
    | true =>
      obtain ⟨f, mem, isC⟩ := Node.cFeature only
      simp [spoken f mem, isC] at isCxx

/-- A C arena with a restricted variable, which has refused a class. -/
def World.restricted : World :=
  ((((empty.grow .c).act 0 (.type (.raw "char"))).act 0 (.decl (.var (.ofString "s") ⟨0, 1⟩ none))).act 0
    (.decl (.setVarQualifiers ⟨0, 0⟩ { VarQualifiers.none with isRestrict := true }))).act 0
    (.type (.newAggregate .classKind (.ofString "K")))

theorem World.restrictedReachable : restricted.Reachable ⟨false, false, false⟩ := by
  refine .act (.act (.act (.act (Reachable.start.grow .c) ?_) ?_) ?_) ?_
  all_goals exact allowsHeld (by decide) rfl (by decide)

theorem restrictedVariableSpeaksC :
    ∃ a m, World.restricted.session.arenas[0]? = some a ∧ a.decls[0]? = some m ∧ a.dialect = .c ∧
      Node.cOnly .decl m = true ∧ Node.cxxOnly .decl m = false := by
  obtain ⟨a, here⟩ : ∃ a, World.restricted.session.arenas[0]? = some a := ⟨_, rfl⟩
  obtain ⟨m, found, isC, only⟩ : ∃ m, a.decls[0]? = some m ∧ a.dialect = .c ∧ Node.cOnly .decl m = true := by
    cases here
    exact ⟨_, rfl, rfl, rfl⟩
  exact ⟨a, m, here, found, isC, only,
    (dialectsStayApart World.restrictedReachable here (c := .decl) found).1 isC⟩

end CSource
