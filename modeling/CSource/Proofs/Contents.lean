import CSource.Proofs.Housing
import CSource.Proofs.Independence

/-!
Scopes are written by their owners alone: a scope below a node is one of the scopes that the node owns, also where a
reference leads nowhere and the writing stops. Directives are written by scopes alone.
-/

namespace CSource

open Pieces Render

variable {a : Arena} {r k : NodeRef} {ps qs : Pieces} {owned : List NodeRef}

namespace Pieces

/-- No directive is among the children, and no scope but the owned ones. -/
def Houses (owned : List NodeRef) (ps : Pieces) : Prop :=
  ∀ k, .child k ∈ ps → k.category ≠ .directive ∧ (k.category = .scope → k ∈ owned)

@[simp] theorem scopesNil : Houses owned [] := nofun

@[simp] theorem scopesCode (text : String) : Houses owned (.code text :: ps) ↔ Houses owned ps := by
  simp [Houses]

@[simp] theorem scopesFault (cause : Misuse) : Houses owned (.fault cause :: ps) ↔ Houses owned ps := by
  simp [Houses]

@[simp] theorem scopesChild {c : Category} (h : Handle c) :
    Houses owned (.child h.ref :: ps) ↔ (c ≠ .directive ∧ (c = .scope → h.ref ∈ owned)) ∧ Houses owned ps := by
  simp [Houses, Handle.ref]

@[simp] theorem scopesArg (arg : TemplateArg) : Houses owned [.child arg.ref] := by
  cases arg <;> simp [TemplateArg.ref]

@[simp] theorem scopesAppend : Houses owned (ps ++ qs) ↔ Houses owned ps ∧ Houses owned qs := by
  simp only [Houses, List.mem_append, or_imp, forall_and]
  exact and_and_and_comm

@[simp] theorem scopesFlatMap {α : Type} {f : α → Pieces} {xs : List α} :
    Houses owned (xs.flatMap f) ↔ ∀ x ∈ xs, Houses owned (f x) := by
  induction xs with
  | nil => simp
  | cons x xs ih => simp [ih]

@[simp] theorem scopesOfText (text : String) : Houses owned (ofText text) := by simp [ofText]

@[simp] theorem scopesOfHandle {c : Category} (h : Handle c) :
    Houses owned (ofHandle h) ↔ c ≠ .directive ∧ (c = .scope → h.ref ∈ owned) := by
  simp [ofHandle]

@[simp] theorem scopesOfName (name : Except Misuse QualName) : Houses owned (ofName name) := by
  cases name <;> simp [ofName]

@[simp] theorem scopesOk : Houses owned (Pieces.ofExcept (.ok ps)) ↔ Houses owned ps := .rfl

@[simp] theorem scopesError (cause : Misuse) : Houses owned (Pieces.ofExcept (.error cause)) := by
  simp [Pieces.ofExcept]

@[simp] theorem scopesInParens : Houses owned (inParens ps) ↔ Houses owned ps := by simp [inParens]

@[simp] theorem scopesInBrackets : Houses owned (inBrackets ps) ↔ Houses owned ps := by simp [inBrackets]

@[simp] theorem scopesInBraces : Houses owned (inBraces ps) ↔ Houses owned ps := by simp [inBraces]

@[simp] theorem scopesSeparated {separator : String} {items : List Pieces} :
    Houses owned (separated separator items) ↔ ∀ item ∈ items, Houses owned item := by
  induction items with
  | nil => simp [separated]
  | cons item items ih => cases items <;> simp_all [separated]

@[simp] theorem scopesCommaHandles {c : Category} (hs : List (Handle c)) :
    Houses owned (commaHandles hs) ↔ ∀ h ∈ hs, c ≠ .directive ∧ (c = .scope → h.ref ∈ owned) := by
  simp [commaHandles]

@[simp] theorem scopesFlagged (flags : List (Bool × String)) : Houses owned (flagged flags) := by
  simp [Houses, flagged]

@[simp] theorem scopesParams {c : Category} (hs : List (Handle c)) (variadic : Bool) :
    Houses owned (params hs variadic) ↔ ∀ h ∈ hs, c ≠ .directive ∧ (c = .scope → h.ref ∈ owned) := by
  cases variadic <;> simp [params, variadicMark]

@[simp] theorem scopesOption {α : Type} {f : α → Pieces} {x : Option α} :
    Houses owned (ofOption f x) ↔ ∀ y, x = some y → Houses owned (f y) := by
  cases x <;> simp [ofOption]

end Pieces

@[simp] theorem scopesEnclosed (braced : Bool) (args : List ExprRef) : Houses owned (enclosed braced args) := by
  cases braced <;> simp [enclosed]

@[simp] theorem scopesBlock (body : ScopeRef) : Houses owned (block body) ↔ body.ref ∈ owned := by
  simp [block]

@[simp] theorem scopesTagged (keyword : String) (name : Except Misuse QualName) :
    Houses owned (taggedName keyword name) := by
  simp [taggedName]

@[simp] theorem scopesNamedType (d : DeclRef) : Houses owned (namedType a d) := by
  unfold namedType
  cases a.node d with
  | error cause => exact scopesError cause
  | ok n =>
    cases n with
    | aggregate ty forward =>
      show Houses owned (Pieces.ofExcept (a.aggregateAt ty >>= _))
      cases a.aggregateAt ty with
      | error cause => exact scopesError cause
      | ok data =>
        show Houses owned (if a.dialect.isCxx = true then _ else _)
        split <;> simp
    | enumeration ty forward =>
      show Houses owned (if a.dialect.isCxx = true then _ else _)
      split <;> simp
    | _ => exact scopesOfName _

@[simp] theorem scopesArraySizes (sizes : List ExprRef) : Houses owned (arraySizes sizes) := by
  cases sizes <;> simp [arraySizes]

@[simp] theorem scopesInstantiation (d : DeclRef) (args : List TemplateArg) :
    Houses owned (instantiation a d args) := by
  simp [instantiation, templateArgs]

@[simp] theorem scopesNameSuffix (name : String) : Houses owned (nameSuffix name) := by
  unfold nameSuffix
  split <;> simp

@[simp] theorem scopesDeclarator (ty : TypeRef) (name : String) : Houses owned (declarator a ty name) := by
  unfold declarator
  cases a.node ty with
  | error cause => exact scopesError cause
  | ok n =>
    cases n with
    | pointer pointee =>
      show Houses owned (Pieces.ofExcept (a.node pointee >>= _))
      cases a.node pointee with
      | error cause => exact scopesError cause
      | ok m => cases m <;> simp [bind, Except.bind, pure, Except.pure, plainDeclarator]
    | _ => simp [bind, Except.bind, pure, Except.pure, plainDeclarator]

@[simp] theorem scopesSignature (data : FuncDecl) (style : SignatureStyle) :
    Houses owned (signature a data style) := by
  have name : Houses owned (signatureName a data style) := by
    unfold signatureName
    split <;> simp
  have tail : Houses owned (signatureTail data style) := by
    unfold signatureTail
    simp [flagged]
  simp [signature, signatureQualifiers, name, tail]

@[simp] theorem scopesTagReference (ty : TypeRef) : Houses owned (tagReference a ty) := by
  unfold tagReference
  cases a.node ty with
  | error cause => exact scopesError cause
  | ok n => cases n <;> simp [bind, Except.bind, pure, Except.pure, aggregateHead, enumHead]

@[simp] theorem scopesMemberInits (inits : List MemberInit) : Houses owned (memberInits inits) := by
  cases inits <;> simp [memberInits, memberInit]

def Body.refs (bodies : List Body) : List NodeRef := bodies.map (·.scope.ref)

@[simp] theorem memBodyRefs {scope : ScopeRef} {bodies : List Body} :
    scope.ref ∈ Body.refs bodies ↔ ∃ body ∈ bodies, body.scope = scope := by
  refine List.mem_map.trans ⟨?_, ?_⟩
  · rintro ⟨body, listed, same⟩
    exact ⟨body, listed, refInjective same⟩
  · rintro ⟨body, listed, rfl⟩
    exact ⟨body, listed, rfl⟩

@[simp] theorem memFunctionBodies {scope : ScopeRef} {scopes : List ScopeRef} :
    (∃ body ∈ functionBodies scopes, body.scope = scope) ↔ scope ∈ scopes := by
  simp [functionBodies]

theorem typeScopes (self : TypeRef) (n : TypeNode) : Houses (Body.refs (n.bodies self)) (type a n) := by
  cases n with
  | aggregate data =>
    have bases : Houses (Body.refs (data.bodies self)) (baseList data.bases) := by
      cases data.bases <;> simp [baseList]
    have members : ∀ r ∈ data.regions, r.scope.ref ∈ Body.refs (data.bodies self) := by
      intro r listed
      exact memBodyRefs.mpr ⟨_, List.mem_map_of_mem listed, rfl⟩
    simpa [type, aggregate, aggregateHead, TypeNode.bodies, bases, region] using members
  | _ => simp [type, Render.enumeration, enumHead, enumMember]

theorem declScopes (n : DeclNode) : Houses (Body.refs n.bodies) (decl a n) := by
  cases n with
  | var data =>
    have shape : Houses (Body.refs (DeclNode.var data).bodies) (varShape data.shape) := by
      cases data.shape <;> simp [varShape]
    simp [decl, Render.var, shape, initializer]
  | function data =>
    have rest : Houses (Body.refs (DeclNode.function data).bodies) (functionEnd data) := by
      unfold functionEnd
      split
      · simp
      · simp
      · rename_i body _ found
        simp [DeclNode.bodies, found]
    simp [decl, Render.function, rest]
  | splitForward func =>
    show Houses _ (Pieces.ofExcept (a.functionAt func >>= _))
    cases a.functionAt func <;> simp [bind, Except.bind, pure, Except.pure]
  | aggregate ty forward | enumeration ty forward => cases forward <;> simp [decl]
  | typeDef ty | usingType ty =>
    show Houses _ (Pieces.ofExcept (synonymAt a ty >>= _))
    cases synonymAt a ty <;> simp [bind, Except.bind, pure, Except.pure]
  | _ => simp [decl]

theorem exprScopes (n : ExprNode) : Houses (Body.refs n.bodies) (expr a n) := by
  cases n with
  | unary op x leading => cases leading <;> simp [expr]
  | fold op pack kind => cases kind <;> simp [expr, Render.fold]
  | designated fields => simp [expr, designator]
  | generic control assocs =>
    have each (assoc : Association) : Houses (Body.refs (ExprNode.generic control assocs).bodies)
        (association assoc) := by
      unfold association
      cases assoc.ty <;> simp
    simp [expr, each]
  | lambda data => simp [expr, Render.lambda, ExprNode.bodies]
  | new data => simp [expr, Render.new]
  | _ => simp [expr]

theorem stmtScopes (n : StmtNode) : Houses (Body.refs n.bodies) (stmt n) := by
  cases n with
  | ifElse data =>
    simp +contextual [stmt, Render.ifElse, condition, elseIf, StmtNode.bodies, IfStmt.scopes]
    grind
  | forLoop init cond step body => cases init <;> simp [stmt, forHeader, StmtNode.bodies]
  | label name inner => cases inner <;> simp [stmt]
  | caseLabel data =>
    simp only [stmt, Render.caseLabel]
    cases data.value <;> simp [StmtNode.bodies]
  | tryCatch data =>
    have each (h : Handler) (listed : h ∈ data.handlers) :
        Houses (Body.refs (StmtNode.tryCatch data).bodies) (handler h) := by
      unfold handler
      cases h.decl <;> simp [StmtNode.bodies] <;> exact .inr ⟨h, listed, rfl⟩
    simpa [stmt, StmtNode.bodies] using each
  | _ => simp [stmt, condition, jump, StmtNode.bodies]

@[simp] theorem scopesConditionHead (head : Condition) : Houses owned (conditionHead head) := by
  cases head <;> simp [conditionHead]

theorem directiveScopes (n : DirectiveNode) : Houses (Body.refs n.bodies) (directive n) := by
  cases n with
  | define name value => cases value <;> simp [directive, line]
  | defineFunction name ps body => simp [directive, DirectiveNode.bodies]
  | conditional data =>
    have listed {scope : ScopeRef} : (∃ body ∈ (DirectiveNode.conditional data).bodies, body.scope = scope) ↔
        scope ∈ data.scopes := by
      simp [DirectiveNode.bodies]
    simp +contextual only [directive, Render.conditional, elif, scopesAppend, scopesChild, scopesFlatMap, scopesOption,
      scopesCode, scopesConditionHead, scopesOfHandle, scopesOfText, memBodyRefs, listed, Conditional.scopes]
    grind
  | namespaceBlock name body => simp [directive, DirectiveNode.bodies]
  | _ => simp [directive, line]

theorem writtenHouses (other : r.category ≠ .scope) : Houses (Body.refs (a.bodiesOf r)) (pieces a r) := by
  unfold pieces Arena.bodiesOf
  cases a.node r.handle with
  | error cause => simp
  | ok n =>
    obtain ⟨c, arena, index⟩ := r
    cases c with
    | type => exact typeScopes _ n
    | decl => exact declScopes n
    | expr => exact exprScopes n
    | stmt => exact stmtScopes n
    | directive => exact directiveScopes n
    | scope => exact absurd rfl other

theorem scopeWritten (writes : a.Writes r k) (scope : k.category = .scope) :
    ∃ body ∈ a.bodiesOf r, body.scope.ref = k := by
  refine List.mem_map.mp ((writtenHouses ?_ k writes).2 scope)
  intro isScope
  obtain ⟨c, arena, index⟩ := r
  cases isScope
  unfold Arena.Writes pieces at writes
  split at writes
  · obtain ⟨e, _, rfl⟩ := childListed writes
    cases e <;> contradiction
  · simp at writes

theorem directiveWritten {d : DirectiveRef} (writes : a.Writes r d.ref) :
    ∃ (s : ScopeRef) (n : ScopeNode), s.ref = r ∧ a.node s = .ok n ∧ .directive d ∈ n.entries := by
  have isScope : r.category = .scope :=
    Classical.byContradiction fun other => (writtenHouses other _ writes).1 rfl
  obtain ⟨c, arena, index⟩ := r
  cases isScope
  unfold Arena.Writes pieces at writes
  split at writes
  · rename_i n found
    obtain ⟨e, listed, same⟩ := childListed writes
    refine ⟨⟨arena, index⟩, n, rfl, found, ?_⟩
    cases e with
    | directive f => exact refInjective same ▸ listed
    | _ => cases congrArg NodeRef.category same
  · simp at writes

end CSource
