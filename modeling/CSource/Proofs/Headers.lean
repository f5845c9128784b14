import CSource.Proofs.Clauses

/-!
Headers of loops and branches. The header of a for statement has three clauses and that of a branch has one, or two
with an initializer. One semicolon may come from the initial statement and one from the loop; all others stand in
brackets inside of a clause, however deep.
-/

namespace CSource

open Pieces Render Build

def Arena.LeavesUndivided (a : Arena) (r : NodeRef) : Prop := ∀ k, a.Shows r k → ∀ leaf ∈ a.leaves k, Undivided leaf

section Texts

variable {a : Arena} {r k : NodeRef} {ps : Pieces} {text : String}

theorem Arena.LeavesUndivided.leveled (leaves : a.LeavesUndivided r) : a.Leveled r :=
  fun k shows leaf mem => (leaves k shows leaf mem).balanced

theorem Arena.LeavesUndivided.below (leaves : a.LeavesUndivided r) (shows : a.Shows r k) : a.LeavesUndivided k :=
  fun l further => leaves l (shows.trans further)

theorem Arena.Spells.undivided (spelled : a.Spells ps text) (whole : ps.Whole) (leaves : a.LeavesUndivided r)
    (part : ∀ k, .child k ∈ ps → a.Writes r k)
    (inner : ∀ k t, a.Writes r k → a.render k = .ok t → k.category = .type ∨ k.category = .expr → Undivided t) :
    Undivided text := by
  induction whole generalizing text with
  | flat flat level =>
    have seamless := spelled.seamless flat fun k mem t told => inner k t (part k mem) told (flat _ mem)
    exact seamless.undivided (spelled.balancedIn level leaves.leveled part)
  | parens level =>
    obtain ⟨inside, within, rfl⟩ := spellsInParens.mp spelled
    exact (within.balancedIn level leaves.leveled fun k mem => part k (by simp [inParens, mem])).enclosed rfl rfl rfl
  | braces level =>
    obtain ⟨inside, within, rfl⟩ := spellsInBraces.mp spelled
    exact (within.balancedIn level leaves.leveled fun k mem => part k (by simp [inBraces, mem])).enclosed rfl rfl rfl
  | append _ _ first second =>
    obtain ⟨head, tail, before, behind, rfl⟩ := spellsAppend.mp spelled
    exact (first before fun k mem => part k (List.mem_append_left _ mem)).append
      (second behind fun k mem => part k (List.mem_append_right _ mem))

theorem undividedNode {c : Category} {h : Handle c} {n : Node c} (found : a.node h = .ok n) (inner : c ≠ .scope)
    (whole : (∀ s ∈ Node.leaves a c n, Undivided s) → (Render.node a c n).Whole) (leaves : a.LeavesUndivided h.ref)
    (below : ∀ k t, a.Writes h.ref k → a.render k = .ok t → k.category = .type ∨ k.category = .expr → Undivided t)
    (rendered : a.render h.ref = .ok text) : Undivided text := by
  have own := leaves h.ref .refl
  rw [Arena.leavesOf found] at own
  obtain ⟨node, remarks⟩ := List.forall_mem_append.mp own
  have plain : continuesLines a h.ref = false := by
    cases c <;> first | exact absurd rfl inner | rfl
  obtain ⟨inside, spelled, rfl⟩ := renderedIff.mp rendered
  rw [Arena.piecesOf found] at spelled
  rw [plain]
  refine Undivided.commented (spelled.undivided (whole node) leaves (fun k mem => ?_) below) remarks
  unfold Arena.Writes
  rwa [Arena.piecesOf found]

theorem renderedNode (rendered : a.render r = .ok text) : ∃ n, a.node r.handle = .ok n := by
  obtain ⟨_, spelled, _⟩ := renderedIff.mp rendered
  unfold pieces at spelled
  cases found : a.node r.handle with
  | ok n => exact ⟨n, rfl⟩
  | error cause =>
    rw [found] at spelled
    cases spelled

theorem undividedText (leaves : a.LeavesUndivided r) (inline : r.category = .type ∨ r.category = .expr)
    (rendered : a.render r = .ok text) : Undivided text := by
  refine Arena.writtenInduct (P := fun r text => r.category = .type ∨ r.category = .expr → a.LeavesUndivided r →
    Undivided text) (fun r text rendered below inline leaves => ?_) rendered inline leaves
  have further (k : NodeRef) (t : String) (writes : a.Writes r k) (told : a.render k = .ok t)
      (inline : k.category = .type ∨ k.category = .expr) : Undivided t :=
    below k t writes told inline (leaves.below (.single writes))
  obtain ⟨c, arena, index⟩ := r
  obtain ⟨n, found⟩ := renderedNode rendered
  rcases inline with rfl | rfl
  · exact undividedNode found nofun typeWhole leaves further rendered
  · exact undividedNode found nofun exprWhole leaves further rendered

theorem undividedVar {d : DeclRef} {v : VarDecl} (found : a.node d = .ok (.var v)) (leaves : a.LeavesUndivided d.ref)
    (rendered : a.render d.ref = .ok text) : Undivided text :=
  undividedNode found (by decide) varWhole leaves
    (fun _ _ writes told inline => undividedText (leaves.below (.single writes)) inline told) rendered

end Texts

def Arena.PartText {c : Category} (a : Arena) (part : Option (Handle c)) (text : String) : Prop :=
  match part with
  | some h => a.render h.ref = .ok text
  | none => text = ""

/-- A matching pair of parentheses with those clauses in it. -/
def HeadText (clauses : List String) (text : String) : Prop :=
  ∃ inside, text = "(" ++ inside ++ ")" ∧ Balanced inside ∧ clausesOf inside = clauses

section Conditions

variable {a : Arena} {init : Option DeclRef} {cond : ExprRef} {text : String}

def Arena.ConditionText (a : Arena) (init : Option DeclRef) (cond : ExprRef) (text : String) : Prop :=
  ∃ value, a.render cond.ref = .ok value ∧ match init with
    | none => HeadText [value] text
    | some d => ∃ start, a.render d.ref = .ok start ∧ HeadText [start, value] text

/-- The initializer is a variable, and the leaves of the header keep their semicolons in brackets. -/
structure Arena.PlainCondition (a : Arena) (init : Option DeclRef) (cond : ExprRef) : Prop where
  var : ∀ d, init = some d → ∃ v, a.node d = .ok (.var v)
  leaves : ∀ k, .child k ∈ condition init cond → a.LeavesUndivided k

theorem oneClause {value : String} (undivided : Undivided value) : HeadText [value] ("(" ++ value ++ ")") :=
  ⟨value, rfl, undivided.balanced, undivided.clauses⟩

theorem moreClauses {value inside : String} {clauses : List String} (undivided : Undivided value)
    (behind : HeadText clauses ("(" ++ inside ++ ")")) :
    HeadText (value :: clauses) ("(" ++ (value ++ ";" ++ inside) ++ ")") := by
  obtain ⟨other, same, balanced, split⟩ := behind
  have equal : inside = other := by simpa [String.append_assoc] using same
  subst equal
  refine ⟨_, rfl, (undivided.balanced.append (by decide)).append balanced, ?_⟩
  rw [undivided.clausesBefore, split]

theorem conditionText (plain : a.PlainCondition init cond) (spelled : a.Spells (condition init cond) text) :
    a.ConditionText init cond text := by
  obtain ⟨inside, within, rfl⟩ := Arena.spellsInParens.mp spelled
  obtain ⟨start, value, first, last, rfl⟩ := Arena.spellsAppend.mp within
  have valued := Arena.spellsOfHandle.mp last
  have undivided := undividedText (plain.leaves cond.ref (by simp [condition, inParens, ofHandle])) (.inr rfl) valued
  refine ⟨value, valued, ?_⟩
  cases init with
  | none =>
    cases Arena.spellsNil.mp first
    rw [String.empty_append]
    exact oneClause undivided
  | some d =>
    obtain ⟨begun, _, started, mark, rfl⟩ := Arena.spellsChild.mp first
    cases Arena.spellsOfText.mp mark
    obtain ⟨v, found⟩ := plain.var d rfl
    have leaves := plain.leaves d.ref (by simp [condition, inParens, ofOption])
    exact ⟨begun, started, moreClauses (undividedVar found leaves started) (oneClause undivided)⟩

end Conditions

section Branches

variable {a : Arena} {s : StmtRef} {text : String}

theorem spellsBraced {body : ScopeRef} :
    a.Spells (block body) text ↔ ∃ inner, a.render body.ref = .ok inner ∧ text = "\x7b" ++ inner ++ "\x7d" := by
  simp only [block, Arena.spellsInBraces, Arena.spellsOfHandle]

def ElseIf.Text (a : Arena) (b : ElseIf) (text : String) : Prop :=
  ∃ head body, a.ConditionText b.init b.cond head ∧ a.render b.body.ref = .ok body ∧
    text = "else if" ++ head ++ "\x7b" ++ body ++ "\x7d"

def IfStmt.keyword (data : IfStmt) : String := if data.isConstexpr then "if constexpr" else "if"

structure IfStmt.Plain (a : Arena) (data : IfStmt) : Prop where
  first : a.PlainCondition data.init data.cond
  others : ∀ b ∈ data.elseIfs, a.PlainCondition b.init b.cond

theorem elseIfText {b : ElseIf} (plain : a.PlainCondition b.init b.cond) (spelled : a.Spells (elseIf b) text) :
    b.Text a text := by
  obtain ⟨_, _, front, braced, rfl⟩ := Arena.spellsAppend.mp spelled
  obtain ⟨head, headed, rfl⟩ := Arena.spellsCode.mp front
  obtain ⟨body, inside, rfl⟩ := spellsBraced.mp braced
  exact ⟨head, body, conditionText plain headed, inside, by simp [String.append_assoc]⟩

theorem elseIfTexts {branches : List ElseIf} {texts : List String}
    (plain : ∀ b ∈ branches, a.PlainCondition b.init b.cond)
    (spelled : List.Forall₂ (fun b t => a.Spells (elseIf b) t) branches texts) :
    List.Forall₂ (ElseIf.Text a) branches texts := by
  induction spelled with
  | nil => exact .nil
  | cons first _ ih =>
    obtain ⟨own, others⟩ := List.forall_mem_cons.mp plain
    exact .cons (elseIfText own first) (ih others)

theorem ifText {data : IfStmt} (found : a.node s = .ok (.ifElse data)) (plain : data.Plain a)
    (rendered : a.render s.ref = .ok text) :
    ∃ head body others last, text =
        a.commented s.ref (data.keyword ++ head ++ "\x7b" ++ body ++ "\x7d" ++ String.join others ++ last) ∧
      a.ConditionText data.init data.cond head ∧ a.render data.body.ref = .ok body ∧
      List.Forall₂ (ElseIf.Text a) data.elseIfs others := by
  obtain ⟨inner, spelled, rfl⟩ := renderedIff.mp rendered
  rw [Arena.piecesOf found] at spelled
  obtain ⟨_, last, rest, _, rfl⟩ := Arena.spellsAppend.mp spelled
  obtain ⟨_, _, front, branches, rfl⟩ := Arena.spellsAppend.mp rest
  obtain ⟨_, _, opening, braced, rfl⟩ := Arena.spellsAppend.mp front
  obtain ⟨head, headed, rfl⟩ := Arena.spellsCode.mp opening
  obtain ⟨body, inside, rfl⟩ := spellsBraced.mp braced
  obtain ⟨others, each, rfl⟩ := (Arena.spellsJoined fun _ _ => Iff.rfl).mp branches
  refine ⟨head, body, others, last, ?_, conditionText plain.first headed, inside, elseIfTexts plain.others each⟩
  simp [continuesLines, Handle.ref, continuedIf, IfStmt.keyword, String.append_assoc]

theorem switchText {data : SwitchStmt} (found : a.node s = .ok (.switch data))
    (plain : a.PlainCondition data.init data.cond) (rendered : a.render s.ref = .ok text) :
    ∃ head cases, text = a.commented s.ref ("switch" ++ head ++ "\x7b" ++ cases ++ "\x7d") ∧
      a.ConditionText data.init data.cond head := by
  obtain ⟨inner, spelled, rfl⟩ := renderedIff.mp rendered
  rw [Arena.piecesOf found] at spelled
  obtain ⟨_, _, opening, braced, rfl⟩ := Arena.spellsAppend.mp spelled
  obtain ⟨head, headed, rfl⟩ := Arena.spellsCode.mp opening
  obtain ⟨cases, _, rfl⟩ := Arena.spellsInBraces.mp braced
  refine ⟨head, cases, ?_, conditionText plain headed⟩
  simp [continuesLines, Handle.ref, continuedIf, String.append_assoc]

end Branches

inductive ForInit where
  | nothing
  | decl (d : DeclRef)
  | expr (e : ExprRef)

def ForInit.Text (a : Arena) : ForInit → String → Prop
  | nothing, text => text = ""
  | decl d, text => a.render d.ref = .ok text
  | expr e, text => a.render e.ref = .ok text

inductive Arena.Begins (a : Arena) : Option StmtRef → ForInit → Prop where
  | nothing : Begins a none .nothing
  | decl {s : StmtRef} {d : DeclRef} (found : a.node s = .ok (.decl d)) : Begins a (some s) (.decl d)
  | expr {s : StmtRef} {e : ExprRef} (found : a.node s = .ok (.expr e)) : Begins a (some s) (.expr e)

def ForInit.IsVar (a : Arena) (start : ForInit) : Prop := ∀ d, start = .decl d → ∃ v, a.node d = .ok (.var v)

section Loops

variable {a : Arena} {s : StmtRef} {init : Option StmtRef} {start : ForInit} {cond step : Option ExprRef} {text : String}

/-- The initial statement has no comments, and the leaves of the header keep their semicolons in brackets. -/
structure Arena.PlainHeader (a : Arena) (init : Option StmtRef) (cond step : Option ExprRef) : Prop where
  bare : ∀ s, init = some s → a.commentsOf s.ref = none
  leaves : ∀ k, .child k ∈ forHeader init cond step → a.LeavesUndivided k

theorem partText {part : Option ExprRef} (leaves : ∀ e, part = some e → a.LeavesUndivided e.ref)
    (spelled : a.Spells (ofOption ofHandle part) text) : a.PartText part text ∧ Undivided text := by
  cases part with
  | none =>
    cases Arena.spellsNil.mp spelled
    exact ⟨rfl, by decide⟩
  | some e =>
    have written := Arena.spellsOfHandle.mp spelled
    exact ⟨written, undividedText (leaves e rfl) (.inr rfl) written⟩

def forStart : Option StmtRef → Pieces
  | some s => ofHandle s
  | none => ofText ";"

theorem clauseText {n : StmtNode} {c : Category} {h : Handle c} (found : a.node s = .ok n)
    (written : stmt n = .child h.ref :: ofText ";") (bare : a.commentsOf s.ref = none)
    (rendered : a.render s.ref = .ok text) :
    ∃ value, a.render h.ref = .ok value ∧ a.Writes s.ref h.ref ∧ text = value ++ ";" := by
  have spelled : a.Spells (stmt n) text := (Arena.renderedBare found nofun bare).mp rendered
  rw [written] at spelled
  obtain ⟨value, _, told, mark, rfl⟩ := Arena.spellsChild.mp spelled
  cases Arena.spellsOfText.mp mark
  refine ⟨value, told, ?_, rfl⟩
  have pieces : pieces a s.ref = _ := (Arena.piecesOf found).trans written
  unfold Arena.Writes
  rw [pieces]
  exact List.mem_cons_self ..

theorem startText (begins : a.Begins init start) (isVar : start.IsVar a)
    (bare : ∀ s, init = some s → a.commentsOf s.ref = none) (leaves : ∀ s, init = some s → a.LeavesUndivided s.ref)
    (spelled : a.Spells (forStart init) text) :
    ∃ value, start.Text a value ∧ Undivided value ∧ text = value ++ ";" := by
  cases begins with
  | nothing =>
    cases Arena.spellsOfText.mp spelled
    exact ⟨"", rfl, by decide, by simp⟩
  | @decl i d found =>
    obtain ⟨value, told, writes, rfl⟩ := clauseText found rfl (bare i rfl) (Arena.spellsOfHandle.mp spelled)
    obtain ⟨v, declared⟩ := isVar d rfl
    exact ⟨value, told, undividedVar declared ((leaves i rfl).below (.single writes)) told, rfl⟩
  | @expr i e found =>
    obtain ⟨value, told, writes, rfl⟩ := clauseText found rfl (bare i rfl) (Arena.spellsOfHandle.mp spelled)
    exact ⟨value, told, undividedText ((leaves i rfl).below (.single writes)) (.inr rfl) told, rfl⟩

theorem loopText {body : ScopeRef} (found : a.node s = .ok (.forLoop init cond step body))
    (begins : a.Begins init start) (isVar : start.IsVar a) (plain : a.PlainHeader init cond step)
    (rendered : a.render s.ref = .ok text) :
    ∃ head inside first second third, text = a.commented s.ref ("for" ++ head ++ "\x7b" ++ inside ++ "\x7d") ∧
      start.Text a first ∧ a.PartText cond second ∧ a.PartText step third ∧ HeadText [first, second, third] head := by
  obtain ⟨inner, spelled, rfl⟩ := renderedIff.mp rendered
  rw [Arena.piecesOf found] at spelled
  obtain ⟨_, _, opening, braced, rfl⟩ := Arena.spellsAppend.mp spelled
  obtain ⟨_, headed, rfl⟩ := Arena.spellsCode.mp opening
  obtain ⟨inside, _, rfl⟩ := spellsBraced.mp braced
  obtain ⟨_, within, rfl⟩ := Arena.spellsInParens.mp headed
  obtain ⟨_, _, early, late, rfl⟩ := Arena.spellsAppend.mp within
  obtain ⟨_, second, begun, middle, rfl⟩ := Arena.spellsAppend.mp early
  obtain ⟨third, last, rfl⟩ := Arena.spellsCode.mp late
  obtain ⟨first, started, firstWhole, rfl⟩ := startText begins isVar plain.bare
    (fun i same => plain.leaves i.ref (by simp [same, forHeader, inParens, ofHandle])) begun
  obtain ⟨condition, secondWhole⟩ := partText
    (fun e same => plain.leaves e.ref (by simp [same, forHeader, inParens, ofOption, ofHandle])) middle
  obtain ⟨stepped, thirdWhole⟩ := partText
    (fun e same => plain.leaves e.ref (by simp [same, forHeader, inParens, ofOption, ofHandle])) last
  have clauses := moreClauses firstWhole (moreClauses secondWhole (oneClause thirdWhole))
  refine ⟨_, inside, first, second, third, congrArg (a.commented s.ref) ?_, started, condition, stepped, clauses⟩
  show "for" ++ _ ++ _ = _
  simp only [String.append_assoc]

end Loops

structure ForParts where
  start : ForInit
  cond : Option ExprRef
  step : Option ExprRef

def StmtCall.forParts? : StmtCall → Option ForParts
  | forLoop cond step => some ⟨.nothing, cond, step⟩
  | forDecl init cond step => some ⟨.decl init, cond, step⟩
  | forExpr init cond step => some ⟨.expr init, cond, step⟩
  | _ => none

section Made

variable {a b : Arena} {scope : ScopeRef}

def Arena.KeepsInner (a b : Arena) : Prop :=
  ∀ {c : Category} (h : Handle c) (n : Node c), c ≠ .scope → a.node h = .ok n → b.node h = .ok n

theorem placedStmt {n : StmtNode} {s : StmtRef} (ran : (placeStmt scope n).run a = .ok s b) :
    b.node s = .ok n ∧ a.KeepsInner b := by
  obtain ⟨made, mid, stored, pushed⟩ := bindOk ran
  cases (runAlloc .stmt n a).symm.trans stored
  obtain ⟨_, top, entered, given⟩ := bindOk pushed
  cases given
  obtain ⟨old, present, rfl⟩ := pushEntryOk entered
  have own := (Arena.nodeIff.mp present).1
  have other {c : Category} (h : Handle c) (inner : c ≠ .scope) : h.ref ≠ scope.ref :=
    fun same => inner (congrArg NodeRef.category same)
  constructor
  · exact (Arena.nodeReplaceOther own (other (a.nextHandle .stmt) (by decide))).trans Arena.nodePushed
  · intro c h m inner found
    exact (Arena.nodeReplaceOther own (other h inner)).trans (Arena.nodePushKeeps (c := .stmt) n found)

theorem placedFor {init : Option StmtRef} {cond step : Option ExprRef} {s : Typed .loop}
    (ran : (placeFor scope init cond step).run a = .ok s b) :
    (∃ body, b.node s.handle = .ok (.forLoop init cond step body)) ∧ a.KeepsInner b := by
  obtain ⟨_, _, first, rest⟩ := bindOk ran
  obtain ⟨rfl, _⟩ := (ownOptionChecks _).ok first
  obtain ⟨_, _, second, rest⟩ := bindOk rest
  obtain ⟨rfl, _⟩ := (ownOptionChecks _).ok second
  obtain ⟨_, _, third, rest⟩ := bindOk rest
  obtain ⟨rfl, _⟩ := (ownOptionChecks _).ok third
  obtain ⟨body, mid, opened, rest⟩ := bindOk rest
  cases (runAlloc .scope ⟨.function, []⟩ a).symm.trans opened
  obtain ⟨made, _, placed, given⟩ := bindOk rest
  cases given
  obtain ⟨found, keeps⟩ := placedStmt placed
  exact ⟨⟨_, found⟩, fun h m inner there => keeps h m inner (Arena.nodePushKeeps (c := .scope) _ there)⟩

theorem forMade {call : StmtCall} {parts : ForParts} {answer : Answer} (asked : call.forParts? = some parts)
    (ran : (call.perform scope).run a = .ok answer b) :
    ∃ (s : Typed .loop) (init : Option StmtRef) (body : ScopeRef), answer = .typed s ∧
      b.node s.handle = .ok (.forLoop init parts.cond parts.step body) ∧ b.Begins init parts.start ∧
      (parts.start.IsVar a → parts.start.IsVar b) := by
  have kept (keeps : a.KeepsInner b) (isVar : parts.start.IsVar a) : parts.start.IsVar b := by
    intro d same
    obtain ⟨v, found⟩ := isVar d same
    exact ⟨v, keeps d _ nofun found⟩
  cases call with
  | forLoop cond step =>
    cases asked
    obtain ⟨s, done, rfl⟩ := Table.mappedOk ran
    obtain ⟨⟨body, found⟩, keeps⟩ := placedFor done
    exact ⟨s, none, body, rfl, found, .nothing, kept keeps⟩
  | forDecl d cond step =>
    cases asked
    obtain ⟨s, done, rfl⟩ := Table.mappedOk ran
    obtain ⟨i, mid, stored, rest⟩ := bindOk done
    obtain ⟨_, _, passed, stored⟩ := bindOk stored
    obtain ⟨rfl, _⟩ := (ownChecks _).ok passed
    cases (runAlloc .stmt (.decl d) a).symm.trans stored
    obtain ⟨⟨body, found⟩, keeps⟩ := placedFor rest
    exact ⟨s, some _, body, rfl, found, .decl (keeps _ _ nofun Arena.nodePushed),
      kept fun h n inner there => keeps h n inner (Arena.nodePushKeeps (c := .stmt) _ there)⟩
  | forExpr e cond step =>
    cases asked
    obtain ⟨s, done, rfl⟩ := Table.mappedOk ran
    obtain ⟨_, _, passed, rest⟩ := bindOk done
    obtain ⟨rfl, _⟩ := (ownChecks _).ok passed
    obtain ⟨i, mid, stored, rest⟩ := bindOk rest
    cases (runAlloc .stmt (.expr e) a).symm.trans stored
    obtain ⟨⟨body, found⟩, keeps⟩ := placedFor rest
    exact ⟨s, some _, body, rfl, found, .expr (keeps _ _ nofun Arena.nodePushed),
      kept fun h n inner there => keeps h n inner (Arena.nodePushKeeps (c := .stmt) _ there)⟩
  | _ => contradiction

end Made

section Later

variable {a b : Arena}

theorem Arena.Precedes.begins (precedes : a.Precedes b) {init : Option StmtRef} {start : ForInit}
    (begins : a.Begins init start) : b.Begins init start := by
  cases begins with
  | nothing => exact .nothing
  | decl found =>
    obtain ⟨m, now, follows⟩ := precedes.node found
    cases (follows : StmtNode.Follows _ _)
    exact .decl now
  | expr found =>
    obtain ⟨m, now, follows⟩ := precedes.node found
    cases (follows : StmtNode.Follows _ _)
    exact .expr now

theorem Arena.Precedes.isVar (precedes : a.Precedes b) {start : ForInit} (isVar : start.IsVar a) : start.IsVar b := by
  intro d same
  obtain ⟨v, found⟩ := isVar d same
  obtain ⟨m, there, follows⟩ := precedes.node found
  cases (follows : DeclNode.Follows _ _) with
  | same => exact ⟨_, there⟩
  | var => exact ⟨_, there⟩

end Later

/-- Whatever is done after a for statement has been made, its header has three clauses: the initial statement without
its semicolon, the condition and the step. The header of every branch has the condition as its last clause, and before
that the initializer if there is one. -/
theorem headersKeepShape {p : Policy} {w : World} (reachable : w.Reachable p) {n : Nat} {a : Arena}
    (here : w.session.arenas[n]? = some a) :
    (∀ (q : Place) (taken : q.kind.takesStatements = true) (call : StmtCall) (parts : ForParts) (answer : Answer)
        (b : Arena), call.forParts? = some parts → parts.start.IsVar a → w.Allows p n (.putStmt q taken call) →
      (Call.putStmt q taken call).perform.run a = .ok answer b →
      ∃ s : Typed .loop, answer = .typed s ∧ ∀ v, World.Run p (w.act n (.putStmt q taken call)) v →
        ∃ c init body, v.session.arenas[n]? = some c ∧
          c.node s.handle = .ok (.forLoop init parts.cond parts.step body) ∧ c.Begins init parts.start ∧
          ∀ text, c.PlainHeader init parts.cond parts.step → c.render s.handle.ref = .ok text →
            ∃ head inside first second third,
              text = c.commented s.handle.ref ("for" ++ head ++ "\x7b" ++ inside ++ "\x7d") ∧
              parts.start.Text c first ∧ c.PartText parts.cond second ∧ c.PartText parts.step third ∧
              HeadText [first, second, third] head) ∧
    (∀ (s : StmtRef) (data : IfStmt) (text : String), a.node s = .ok (.ifElse data) → data.Plain a →
      a.render s.ref = .ok text →
      ∃ head body others last, text =
          a.commented s.ref (data.keyword ++ head ++ "\x7b" ++ body ++ "\x7d" ++ String.join others ++ last) ∧
        a.ConditionText data.init data.cond head ∧ a.render data.body.ref = .ok body ∧
        List.Forall₂ (ElseIf.Text a) data.elseIfs others) ∧
    ∀ (s : StmtRef) (data : SwitchStmt) (text : String), a.node s = .ok (.switch data) →
      a.PlainCondition data.init data.cond → a.render s.ref = .ok text →
      ∃ head cases, text = a.commented s.ref ("switch" ++ head ++ "\x7b" ++ cases ++ "\x7d") ∧
        a.ConditionText data.init data.cond head := by
  refine ⟨fun q taken call parts answer b asked isVar allowed ran => ?_, fun s data text => ifText,
    fun s data text => switchText⟩
  obtain ⟨s, init, body, rfl, made, begins, kept⟩ := forMade asked ran
  refine ⟨s, rfl, fun v run => ?_⟩
  obtain ⟨c, later, precedes⟩ := reachable.madePrecedes here allowed ran run
  obtain ⟨m, now, follows⟩ := precedes.node made
  cases (follows : StmtNode.Follows _ _)
  have begun := precedes.begins begins
  exact ⟨c, init, body, later, now, begun, fun text plain => loopText now begun (precedes.isVar (kept isVar)) plain⟩

theorem Arena.undividedWithin {a : Arena} (refs : List NodeRef)
    (closed : ∀ r ∈ refs, ∀ k ∈ (pieces a r).filterMap Piece.child?, k ∈ refs)
    (undivided : ∀ r ∈ refs, ∀ leaf ∈ a.leaves r, Undivided leaf) {r : NodeRef} (first : r ∈ refs) :
    a.LeavesUndivided r :=
  fun k shows => undivided k (showsWithin closed first shows)

theorem functionTakesStatements : PlaceKind.function.takesStatements = true := rfl

/-- A function body with a branch that declares a struct in its header, a second branch and a switch. -/
def World.branching : World :=
  (((((((((((empty.grow .cxx).act 0 (.type (.newAggregate .structKind (.ofString "S")))).act 0
    (.type (.members ⟨⟨0, 1⟩, ⟨0, 0⟩⟩))).act 0 (.type (.raw "int"))).act 0
    (.putAny ⟨.member, ⟨0, 0⟩⟩ (.var (.ofString "a") ⟨0, 2⟩ none))).act 0
    (.decl (.var (.ofString "x") ⟨0, 1⟩ none))).act 0 (.expr (.raw "x.a"))).act 0
    (.decl (.function (.ofString "f") ⟨0, 2⟩ [] false))).act 0 (.decl (.body ⟨⟨0, 3⟩⟩))).act 0
    (.putStmt ⟨.function, ⟨0, 1⟩⟩ functionTakesStatements (.ifElse (some ⟨0, 2⟩) ⟨0, 0⟩ false))).act 0
    (.grow (.addElseIf ⟨⟨0, 1⟩⟩ none ⟨0, 0⟩))).act 0
    (.putStmt ⟨.function, ⟨0, 1⟩⟩ functionTakesStatements (.switch none ⟨0, 0⟩))

theorem World.branchingReachable : branching.Reachable .strict := by
  refine .act (.act (.act (.act (.act (.act (.act (.act (.act (.act (.act (Reachable.start.grow .cxx)
    ?_) ?_) ?_) ?_) ?_) ?_) ?_) ?_) ?_) ?_) ?_
  all_goals exact allowsHeld (by decide) rfl (by decide)

def structLoop : StmtCall := .forDecl ⟨0, 2⟩ (some ⟨0, 0⟩) none

def World.headerNodes : List NodeRef :=
  [⟨.stmt, 0, 3⟩, ⟨.decl, 0, 2⟩, ⟨.type, 0, 1⟩, ⟨.scope, 0, 0⟩, ⟨.stmt, 0, 0⟩, ⟨.decl, 0, 1⟩, ⟨.type, 0, 2⟩, ⟨.expr, 0, 0⟩]

theorem structHeadersDivided : ∃ a c, World.branching.session.arenas[0]? = some a ∧
    (World.branching.act 0 (.putStmt ⟨.function, ⟨0, 1⟩⟩ functionTakesStatements structLoop)).session.arenas[0]? = some c ∧
    (∃ head inside, "for(struct S\x7bint a;\x7d x;x.a;)\x7b\x7d" = "for" ++ head ++ "\x7b" ++ inside ++ "\x7d" ∧
      HeadText ["struct S\x7bint a;\x7d x", "x.a", ""] head) ∧
    (∃ head body others last, "if(struct S\x7bint a;\x7d x;x.a)\x7b\x7delse if(x.a)\x7b\x7d" =
        "if" ++ head ++ "\x7b" ++ body ++ "\x7d" ++ String.join others ++ last ∧
      a.ConditionText (some ⟨0, 2⟩) ⟨0, 0⟩ head) ∧
    ∃ head cases, "switch(x.a)\x7b\x7d" = "switch" ++ head ++ "\x7b" ++ cases ++ "\x7d" ∧
      a.ConditionText none ⟨0, 0⟩ head := by
  obtain ⟨a, here⟩ : ∃ a, World.branching.session.arenas[0]? = some a := ⟨_, rfl⟩
  obtain ⟨loops, branches, switches⟩ := headersKeepShape World.branchingReachable here
  obtain ⟨b, ran⟩ : ∃ b, (Call.putStmt ⟨.function, ⟨0, 1⟩⟩ functionTakesStatements structLoop).perform.run a =
      .ok (.typed ⟨⟨0, 4⟩⟩) b := by
    cases here
    exact ⟨_, rfl⟩
  have isVar : ForInit.IsVar a (.decl ⟨0, 2⟩) := by
    rintro _ ⟨⟩
    cases here
    exact ⟨_, rfl⟩
  obtain ⟨s, same, later⟩ := loops _ rfl structLoop _ _ b rfl isVar (World.allowsHeld (by decide) rfl (by decide)) ran
  cases same
  obtain ⟨c, init, body, there, now, _, divided⟩ := later _ .refl
  have below {r : NodeRef} (first : r ∈ World.headerNodes) : c.LeavesUndivided r := by
    refine Arena.undividedWithin World.headerNodes ?_ ?_ first <;> cases there <;> decide
  have plainHeader : c.PlainHeader init (some ⟨0, 0⟩) none := by
    have isInit : init = some ⟨0, 3⟩ := by
      cases there
      cases now
      rfl
    subst isInit
    refine ⟨?_, fun k mem => below ?_⟩
    · rintro _ ⟨⟩
      cases there
      rfl
    · revert k
      simp [forHeader, inParens, ofHandle, ofOption, Handle.ref, World.headerNodes]
  have loop : c.render (⟨0, 4⟩ : StmtRef).ref = .ok "for(struct S\x7bint a;\x7d x;x.a;)\x7b\x7d" := by
    cases there
    rfl
  obtain ⟨head, inside, first, second, third, whole, started, asked, rfl, headed⟩ := divided _ plainHeader loop
  have parts : first = "struct S\x7bint a;\x7d x" ∧ second = "x.a" := by
    cases there
    exact ⟨(Except.ok.inj started).symm, (Except.ok.inj asked).symm⟩
  obtain ⟨rfl, rfl⟩ := parts
  have bare (text : String) : c.commented (⟨0, 4⟩ : StmtRef).ref text = text := by
    cases there
    rfl
  rw [bare] at whole
  have quiet (r : NodeRef) (text : String) : a.commented r text = text := by
    cases here
    rfl
  have within {r : NodeRef} (first : r ∈ World.headerNodes.tail) : a.LeavesUndivided r := by
    refine Arena.undividedWithin World.headerNodes.tail ?_ ?_ first <;> cases here <;> decide
  obtain ⟨data, found, isPlain, texts⟩ : ∃ data, a.node (⟨0, 1⟩ : StmtRef) = .ok (.ifElse data) ∧
      data = ⟨some ⟨0, 2⟩, ⟨0, 0⟩, false, ⟨0, 2⟩, [⟨none, ⟨0, 0⟩, ⟨0, 3⟩⟩], none⟩ ∧
      a.render (⟨0, 1⟩ : StmtRef).ref = .ok "if(struct S\x7bint a;\x7d x;x.a)\x7b\x7delse if(x.a)\x7b\x7d" := by
    cases here
    exact ⟨_, rfl, rfl, rfl⟩
  subst isPlain
  have condition : a.PlainCondition none ⟨0, 0⟩ := by
    refine ⟨?_, fun k mem => within ?_⟩
    · rintro _ ⟨⟩
    · revert k
      simp [Render.condition, inParens, ofHandle, ofOption, Handle.ref, World.headerNodes]
  have declares : a.PlainCondition (some ⟨0, 2⟩) ⟨0, 0⟩ := by
    refine ⟨?_, fun k mem => within ?_⟩
    · rintro _ ⟨⟩
      cases here
      exact ⟨_, rfl⟩
    · revert k
      simp [Render.condition, inParens, ofHandle, ofOption, ofText, Handle.ref, World.headerNodes]
  obtain ⟨ifHead, ifBody, others, last, ifWhole, ifHeaded, _⟩ :=
    branches _ _ _ found ⟨declares, List.forall_mem_singleton.mpr condition⟩ texts
  rw [quiet] at ifWhole
  obtain ⟨isSwitch, shown⟩ : a.node (⟨0, 2⟩ : StmtRef) = .ok (.switch ⟨none, ⟨0, 0⟩, []⟩) ∧
      a.render (⟨0, 2⟩ : StmtRef).ref = .ok "switch(x.a)\x7b\x7d" := by
    cases here
    exact ⟨rfl, rfl⟩
  obtain ⟨switchHead, cases, switchWhole, switchHeaded⟩ := switches _ _ _ isSwitch condition shown
  rw [quiet] at switchWhole
  exact ⟨a, c, here, there, ⟨head, inside, whole, headed⟩, ⟨ifHead, ifBody, others, last, ifWhole, ifHeaded⟩,
    switchHead, cases, switchWhole, switchHeaded⟩

end CSource
