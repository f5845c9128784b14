import CSource.Proofs.Course

/-!
The mark that a function was defined is not written. No text of an arena changes when a function is marked.
-/

namespace CSource

open Render Pieces

namespace Defines

variable {a b : Arena}

theorem shape (defines : Defines a b) :
    b.number = a.number ∧ b.dialect = a.dialect ∧ b.comments = a.comments ∧ b.stats = a.stats ∧
      b.decls.size = a.decls.size := by
  obtain ⟨h, f, _, rfl⟩ := defines
  simp [Arena.replace, Arena.setNodes, Arena.nodes, Arena.stats]

theorem nodeDecl (defines : Defines a b) (d : DeclRef) : b.node d = a.node d ∨
    ∃ f, a.node d = .ok (.function f) ∧ b.node d = .ok (.function { f with defined := true }) := by
  obtain ⟨h, f, found, rfl⟩ := defines
  by_cases hit : d.ref = h.ref
  · cases refInjective hit
    exact .inr ⟨f, found, Arena.replacedNode found _⟩
  · exact .inl (Arena.nodeReplaceOther (nodeOwn found) hit)

theorem tagName (defines : Defines a b) (ty : TypeRef) : b.tagName ty = a.tagName ty := by
  unfold Arena.tagName
  rw [defines.nodeOther ty nofun]

theorem aggregateAt (defines : Defines a b) (ty : TypeRef) : b.aggregateAt ty = a.aggregateAt ty := by
  unfold Arena.aggregateAt
  rw [defines.nodeOther ty nofun]

theorem declName (defines : Defines a b) (d : DeclRef) : b.declName d = a.declName d := by
  have within (depth : Nat) : b.declNameWithin depth d = a.declNameWithin depth d := by
    induction depth generalizing d with
    | zero => rfl
    | succ depth ih =>
      unfold Arena.declNameWithin
      rcases defines.nodeDecl d with same | ⟨f, before, after⟩
      · rw [same]
        cases a.node d with
        | error cause => rfl
        | ok n => cases n <;> first | rfl | exact ih _ | exact defines.tagName _
      · rw [before, after]
        rfl
  obtain ⟨_, _, _, _, size⟩ := defines.shape
  unfold Arena.declName
  rw [size, within]

theorem signature (defines : Defines a b) (data : FuncDecl) (style : SignatureStyle) :
    Render.signature b data style = Render.signature a data style := by
  unfold Render.signature signatureName
  simp only [defines.tagName]

theorem declarator (defines : Defines a b) (ty : TypeRef) (name : String) :
    Render.declarator b ty name = Render.declarator a ty name := by
  have types (ty : TypeRef) : b.node ty = a.node ty := defines.nodeOther ty nofun
  unfold Render.declarator
  simp only [types]

theorem typePieces (defines : Defines a b) (n : TypeNode) : Render.type b n = Render.type a n := by
  obtain ⟨_, dialect, _⟩ := defines.shape
  cases n with
  | named d =>
    show namedType b d = namedType a d
    unfold namedType
    simp only [dialect, defines.tagName, defines.declName, defines.aggregateAt]
    rcases defines.nodeDecl d with same | ⟨f, before, after⟩
    · rw [same]
    · rw [before, after]
      rfl
  | instantiation template args =>
    show instantiation b template args = instantiation a template args
    unfold instantiation
    rw [defines.declName]
  | _ => rfl

theorem declPieces (defines : Defines a b) (n : DeclNode) : Render.decl b n = Render.decl a n := by
  have types (ty : TypeRef) : b.node ty = a.node ty := defines.nodeOther ty nofun
  cases n with
  | var data =>
    show Render.var b data = Render.var a data
    unfold Render.var
    rw [defines.declarator]
  | function data =>
    show Render.function b data = Render.function a data
    unfold Render.function
    rw [defines.signature]
  | splitForward func =>
    simp only [Render.decl, defines.signature, Arena.functionAt]
    rcases defines.nodeDecl func with same | ⟨f, before, after⟩
    · rw [same]
    · rw [before, after]
      rfl
  | aggregate ty forward | enumeration ty forward =>
    simp only [Render.decl, tagReference, types]
  | typeDef ty | usingType ty =>
    simp only [Render.decl, synonymAt, types, defines.declarator]
  | raw | template => rfl

theorem exprPieces (defines : Defines a b) (n : ExprNode) : Render.expr b n = Render.expr a n := by
  cases n with
  | var d =>
    show ofName (b.declName d) = ofName (a.declName d)
    rw [defines.declName]
  | instantiation template args =>
    show instantiation b template args = instantiation a template args
    unfold instantiation
    rw [defines.declName]
  | _ => rfl

theorem nodePieces (defines : Defines a b) {c : Category} (n : Node c) : Render.node b c n = Render.node a c n := by
  cases c with
  | type => exact defines.typePieces n
  | decl => exact defines.declPieces n
  | expr => exact defines.exprPieces n
  | stmt | directive | scope => rfl

theorem pieces (defines : Defines a b) (r : NodeRef) : Render.pieces b r = Render.pieces a r := by
  have alike : b.node r.handle = a.node r.handle ∨ ∃ n m, a.node r.handle = .ok n ∧ b.node r.handle = .ok m ∧
      Render.node a r.category m = Render.node a r.category n := by
    obtain ⟨c, arena, index⟩ := r
    cases c with
    | decl =>
      refine (defines.nodeDecl ⟨arena, index⟩).imp_right ?_
      rintro ⟨f, before, after⟩
      exact ⟨_, _, before, after, rfl⟩
    | _ => exact .inl (defines.nodeOther _ nofun)
  unfold Render.pieces
  rcases alike with same | ⟨n, m, before, after, written⟩
  · rw [same]
    cases a.node r.handle with
    | error cause => rfl
    | ok n => exact defines.nodePieces n
  · rw [before, after]
    exact (defines.nodePieces m).trans written

theorem continuesLines (defines : Defines a b) (r : NodeRef) :
    Render.continuesLines b r = Render.continuesLines a r := by
  obtain ⟨c, arena, index⟩ := r
  cases c with
  | scope =>
    have same : b.node (⟨arena, index⟩ : ScopeRef) = a.node (⟨arena, index⟩ : ScopeRef) := defines.nodeOther _ nofun
    simp only [Render.continuesLines, same]
  | _ => rfl

theorem render (defines : Defines a b) (r : NodeRef) : b.render r = a.render r := by
  obtain ⟨_, _, comments, stats, _⟩ := defines.shape
  have within (depth : Nat) : segmentsWithin b depth = segmentsWithin a depth := by
    induction depth with
    | zero => rfl
    | succ depth ih =>
      funext r
      unfold segmentsWithin annotate Arena.commentsOf
      rw [ih, defines.pieces, defines.continuesLines, comments]
  unfold Arena.render Arena.segments Arena.depthBound
  rw [stats, within]

end Defines

end CSource
