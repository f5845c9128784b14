import CSource.Proofs.Levels
import CSource.Proofs.Lifecycle
import CSource.Proofs.Persistence
import CSource.Proofs.Selection

/-!
Balance. A text is balanced as soon as the texts are that clients have given for it. What a short form is enclosed in is
a matching pair of parentheses, and what stands between the braces of a body is balanced on its own.
-/

namespace CSource

open Pieces Render

section Texts

variable {a : Arena} {r k : NodeRef} {text : String}

theorem Arena.leavesOf {c : Category} {h : Handle c} {n : Node c} (found : a.node h = .ok n) :
    a.leaves h.ref = Node.leaves a c n ++ a.remarks h.ref := by
  unfold Arena.leaves
  rw [show a.node h.ref.handle = .ok n from found]
  rfl

theorem remarksBalanced (each : ∀ s ∈ a.leaves r, Balanced s) :
    ∀ c, a.commentsOf r = some c → ∀ t, c.before = some t ∨ c.after = some t → Balanced t := by
  intro c attached t told
  refine each t (List.mem_append.mpr (.inr ?_))
  unfold Arena.remarks
  rw [attached]
  rcases told with before | after
  · simp [before]
  · simp [after]

theorem Arena.Leveled.below (leveled : a.Leveled r) (shows : a.Shows r k) : a.Leveled k :=
  fun l further => leveled l (shows.trans further)

/-- A text is balanced if the leaves below its node are: so are the texts of its children, whole in the place where they
stand, and the node's own code is level. -/
theorem balancedText (leveled : a.Leveled r) (rendered : a.render r = .ok text) : Balanced text := by
  refine Arena.writtenInduct (P := fun r text => a.Leveled r → Balanced text) (fun r text rendered below leveled => ?_)
    rendered leveled
  obtain ⟨inner, spelled, rfl⟩ := renderedIff.mp rendered
  have own := leveled r .refl
  have inside : Balanced inner :=
    spelled.balanced (piecesLevel own) fun k writes t told => below k t writes told (leveled.below (.single writes))
  exact (inside.continuedIf _).commented (remarksBalanced own)

theorem Arena.Spells.balancedIn {ps : Pieces} (spelled : a.Spells ps text) (level : Level ps) (leveled : a.Leveled r)
    (part : ∀ k, .child k ∈ ps → a.Writes r k) : Balanced text :=
  spelled.balanced level fun k mem _ told => balancedText (leveled.below (.single (part k mem))) told

end Texts

section Enclosed

def ExprCall.isShort : ExprCall → Bool
  | shortUnary _ _ | shortPostfix _ _ | shortBinary _ _ _ | shortCall _ _ | shortIndex _ _ => true
  | _ => false

variable {a b : Arena} {text : String}

theorem parenMade {act : Build ExprRef} {e : ExprRef} (ran : (act >>= Build.parenExpr).run a = .ok e b) :
    ∃ inner, b.node e = .ok (.paren inner) := by
  obtain ⟨inner, mid, _, closed⟩ := bindOk ran
  obtain ⟨_, top, _, stored⟩ := bindOk closed
  rw [Build.runAlloc] at stored
  cases stored
  exact ⟨inner, Arena.nodePushed⟩

theorem shortEncloses {call : ExprCall} {answer : Answer} (short : call.isShort = true)
    (ran : (Call.expr call).perform.run a = .ok answer b) :
    ∃ e inner, answer = .expr e ∧ b.node e = .ok (.paren inner) := by
  have closed {act : Build ExprRef} (made : (Answer.expr <$> act).run a = .ok answer b)
      (last : ∀ e, act.run a = .ok e b → ∃ inner, b.node e = .ok (.paren inner)) :
      ∃ e inner, answer = .expr e ∧ b.node e = .ok (.paren inner) := by
    obtain ⟨e, done, rfl⟩ := Table.mappedOk made
    obtain ⟨inner, found⟩ := last e done
    exact ⟨e, inner, rfl, found⟩
  cases call with
  | shortUnary | shortPostfix | shortIndex =>
    refine closed ran fun e done => ?_
    obtain ⟨_, _, _, rest⟩ := bindOk done
    exact parenMade rest
  | shortBinary | shortCall =>
    refine closed ran fun e done => ?_
    obtain ⟨_, _, _, rest⟩ := bindOk done
    obtain ⟨_, _, _, rest⟩ := bindOk rest
    exact parenMade rest
  | _ => contradiction

theorem parenText {e inner : ExprRef} (found : a.node e = .ok (.paren inner)) (bare : a.commentsOf e.ref = none)
    (leveled : a.Leveled e.ref) (rendered : a.render e.ref = .ok text) :
    ∃ t, a.render inner.ref = .ok t ∧ text = "(" ++ t ++ ")" ∧ Balanced t := by
  have spelled := (Arena.renderedBare found (by decide) bare).mp rendered
  obtain ⟨t, told, rfl⟩ := Arena.spellsInParens.mp spelled
  have written := Arena.spellsOfHandle.mp told
  have writes : a.Writes e.ref inner.ref := by
    unfold Arena.Writes
    rw [Arena.piecesOf found]
    exact List.mem_cons_of_mem _ (List.mem_cons_self ..)
  exact ⟨t, written, rfl, balancedText (leveled.below (.single writes)) written⟩

end Enclosed

/-- What stands between braces that the node opens: a body, or the parts that the node writes there itself. -/
inductive Node.Opens : (c : Category) → Node c → Pieces → Prop where
  | aggregate (data : Aggregate) : Opens .type (.aggregate data) (data.regions.flatMap region)
  | enumeration (data : Enumeration) : Opens .type (.enumeration data) (data.members.flatMap enumMember)
  | function {data : FuncDecl} {body : ScopeRef} (plain : data.special = none) (defined : data.body = some body) :
      Opens .decl (.function data) (ofHandle body)
  | lambda (data : LambdaExpr) : Opens .expr (.lambda data) (ofHandle data.body)
  | stmt {n : StmtNode} {body : Body} (owned : body ∈ n.bodies) (braced : ∀ data, n ≠ .caseLabel data) :
      Opens .stmt n (ofHandle body.scope)
  | switch (data : SwitchStmt) : Opens .stmt (.switch data) (data.cases.flatMap ofHandle)
  | namespaceBlock (name : QualName) (body : ScopeRef) :
      Opens .directive (.namespaceBlock name body) (ofHandle body)

section Braces

variable {a : Arena} {c : Category} {n : Node c} {h : Handle c} {body : Pieces} {text : String}

theorem Node.Opens.level (opens : Node.Opens c n body) (each : ∀ s ∈ Node.leaves a c n, Balanced s) : Level body := by
  cases opens with
  | aggregate data => exact levelRegions _
  | enumeration data => exact levelMembers (List.forall_mem_append.mp each).2
  | switch data => exact levelFlatMap fun s _ => levelOfHandle s
  | _ => exact levelOfHandle _

theorem flatMapInfix {α : Type} {f : α → Pieces} {x : α} {xs : List α} (mem : x ∈ xs) : f x <:+: xs.flatMap f :=
  List.infix_of_mem_flatten (List.mem_map_of_mem mem)

theorem optionInfix {α : Type} {f : α → Pieces} {x : α} {y : Option α} (mem : x ∈ y.toList) :
    f x <:+: ofOption f y := by
  cases y with
  | none => contradiction
  | some y =>
    cases List.mem_singleton.mp mem
    exact List.infix_rfl

theorem ifInfix {data : IfStmt} {scope : ScopeRef} (owned : scope ∈ data.scopes) :
    block scope <:+: stmt (.ifElse data) := by
  rcases List.mem_append.mp owned with early | last
  · refine List.infix_append_of_infix_left ?_
    rcases List.mem_cons.mp early with rfl | other
    · exact List.infix_append ..
    · obtain ⟨b, listed, rfl⟩ := List.mem_map.mp other
      have own : block b.body <:+: elseIf b := List.infix_append_right
      exact (own.trans (flatMapInfix listed)).trans List.infix_append_right
  · have own : block scope <:+: .code "else" :: block scope := List.infix_cons List.infix_rfl
    exact (own.trans (optionInfix (f := fun scope => .code "else" :: block scope) last)).trans List.infix_append_right

theorem tryInfix {data : TryStmt} {scope : ScopeRef} (owned : scope ∈ data.body :: data.handlers.map (·.body)) :
    block scope <:+: stmt (.tryCatch data) := by
  rcases List.mem_cons.mp owned with rfl | other
  · exact List.infix_append_of_infix_left (List.infix_cons List.infix_rfl)
  · obtain ⟨h, listed, rfl⟩ := List.mem_map.mp other
    have own : block h.body <:+: handler h := List.infix_append_right
    exact (own.trans (flatMapInfix listed)).trans List.infix_append_right

theorem stmtInfix {n : StmtNode} {body : Body} (owned : body ∈ n.bodies) (braced : ∀ data, n ≠ .caseLabel data) :
    block body.scope <:+: stmt n := by
  cases n with
  | whileLoop | forLoop | forRange =>
    cases List.mem_singleton.mp owned
    exact List.infix_append_right
  | doWhile cond scope =>
    cases List.mem_singleton.mp owned
    have own : block scope <:+: .code "do" :: block scope := List.infix_cons List.infix_rfl
    exact List.infix_append_of_infix_left (List.infix_append_of_infix_left own)
  | block scope =>
    cases List.mem_singleton.mp owned
    exact List.infix_rfl
  | ifElse data =>
    obtain ⟨scope, listed, rfl⟩ := List.mem_map.mp owned
    exact ifInfix listed
  | tryCatch data =>
    obtain ⟨scope, listed, rfl⟩ := List.mem_map.mp owned
    exact tryInfix listed
  | caseLabel data => exact absurd rfl (braced data)
  | _ => contradiction

theorem Node.Opens.within (opens : Node.Opens c n body) : inBraces body <:+: Render.node a c n := by
  cases opens with
  | @function data body plain defined =>
    have ends : functionEnd data = memberInits data.inits ++ block body := by simp [functionEnd, plain, defined]
    show block body <:+: signature a data (styleOf data.lifecycle) ++ functionEnd data
    rw [ends]
    exact List.infix_append_right.trans List.infix_append_right
  | stmt owned braced => exact stmtInfix owned braced
  | namespaceBlock name body => exact List.infix_cons (List.infix_cons List.infix_rfl)
  | aggregate | enumeration | lambda | switch => exact List.infix_append_right

theorem braceText (found : a.node h = .ok n) (opens : Node.Opens c n body) (leveled : a.Leveled h.ref)
    (rendered : a.render h.ref = .ok text) :
    ∃ head inside tail, text = a.commented h.ref (head ++ "\x7b" ++ inside ++ "\x7d" ++ tail) ∧ a.Spells body inside ∧
      Balanced inside := by
  have plain : continuesLines a h.ref = false := by cases opens <;> rfl
  have each : ∀ s ∈ Node.leaves a c n, Balanced s := by
    have own := leveled h.ref .refl
    rw [Arena.leavesOf found] at own
    exact (List.forall_mem_append.mp own).1
  obtain ⟨inner, spelled, rfl⟩ := renderedIff.mp rendered
  obtain ⟨pre, post, whole⟩ := opens.within (a := a)
  rw [Arena.piecesOf found, ← whole] at spelled
  obtain ⟨_, tail, first, _, rfl⟩ := Arena.spellsAppend.mp spelled
  obtain ⟨head, _, _, middle, rfl⟩ := Arena.spellsAppend.mp first
  obtain ⟨inside, enclosed, rfl⟩ := Arena.spellsInBraces.mp middle
  refine ⟨head, inside, tail, ?_, enclosed, enclosed.balancedIn (opens.level each) leveled fun k mem => ?_⟩
  · rw [plain]
    simp [continuedIf, String.append_assoc]
  · unfold Arena.Writes
    rw [Arena.piecesOf found, ← whole]
    simp [inBraces, mem]

end Braces

/-- A text with balanced leaves is balanced. Whatever is done later, a short form stays one matching pair of
parentheses, and every brace that opens a body is matched by the one that closes it. -/
theorem bracketsBalance {p : Policy} {w : World} (reachable : w.Reachable p) {n : Nat} {a : Arena}
    (here : w.session.arenas[n]? = some a) :
    (∀ (r : NodeRef) (text : String), a.Leveled r → a.render r = .ok text → Balanced text) ∧
    (∀ (call : ExprCall) (answer : Answer) (b : Arena), call.isShort = true → w.Allows p n (.expr call) →
      (Call.expr call).perform.run a = .ok answer b →
      ∃ e, answer = .expr e ∧ ∀ v, World.Run p (w.act n (.expr call)) v → ∃ c, v.session.arenas[n]? = some c ∧
        ∀ text, c.Leveled e.ref → c.commentsOf e.ref = none → c.render e.ref = .ok text →
          ∃ inside, text = "(" ++ inside ++ ")" ∧ Balanced inside) ∧
    ∀ (c : Category) (h : Handle c) (m : Node c) (body : Pieces) (text : String), a.node h = .ok m →
      Node.Opens c m body → a.Leveled h.ref → a.render h.ref = .ok text →
      ∃ head inside tail, text = a.commented h.ref (head ++ "\x7b" ++ inside ++ "\x7d" ++ tail) ∧ a.Spells body inside ∧
        Balanced inside := by
  refine ⟨fun r text => balancedText, fun call answer b short allowed ran => ?_, fun c h m body text => braceText⟩
  obtain ⟨e, inner, rfl, made⟩ := shortEncloses short ran
  refine ⟨e, rfl, fun v run => ?_⟩
  obtain ⟨c, later, precedes⟩ := reachable.madePrecedes here allowed ran run
  have kept : c.node e = .ok (.paren inner) := by
    obtain ⟨m, now, follows⟩ := precedes.node made
    cases (follows : ExprNode.Follows _ _)
    exact now
  refine ⟨c, later, fun text leveled bare rendered => ?_⟩
  obtain ⟨inside, _, rfl, balanced⟩ := parenText kept bare leveled rendered
  exact ⟨inside, rfl, balanced⟩

theorem Arena.leveledWithin {a : Arena} (refs : List NodeRef)
    (closed : ∀ r ∈ refs, ∀ k ∈ (pieces a r).filterMap Piece.child?, k ∈ refs)
    (balanced : ∀ r ∈ refs, ∀ leaf ∈ a.leaves r, Balanced leaf) {r : NodeRef} (first : r ∈ refs) : a.Leveled r :=
  fun k shows => balanced k (showsWithin closed first shows)

def twoTerms : ExprCall := .shortBinary (.ident "g(x)") "+" (.ident "t[1]")

def World.definedOnce : World :=
  ((((empty.grow .cxx).act 0 .newTopLevel).act 0 (.type (.raw "int"))).act 0
    (.putTopLevel ⟨.topLevel, ⟨0, 0⟩⟩ rfl (.function .split (.ofString "f") ⟨0, 1⟩ [] false))).act 0
    (.putTopLevel ⟨.topLevel, ⟨0, 0⟩⟩ rfl (.defineFunction ⟨⟨0, 0⟩⟩))

theorem World.definedOnceReachable : definedOnce.Reachable .strict := by
  refine .act (.act (.act (.act (Reachable.start.grow .cxx) ?_) ?_) ?_) ?_
  all_goals exact allowsHeld (by decide) rfl (by decide)

theorem definedOnceMatched : ∃ a c, World.definedOnce.session.arenas[0]? = some a ∧
    a.render ⟨.scope, 0, 0⟩ = .ok "int f();\nint f()\x7b\x7d\n" ∧ Balanced "int f();\nint f()\x7b\x7d\n" ∧
    (∃ head inside tail, "int f()\x7b\x7d" = head ++ "\x7b" ++ inside ++ "\x7d" ++ tail ∧ Balanced inside) ∧
    (World.definedOnce.act 0 (.expr twoTerms)).session.arenas[0]? = some c ∧
    c.render ⟨.expr, 0, 3⟩ = .ok "(g(x)+t[1])" ∧ ∃ inside, "(g(x)+t[1])" = "(" ++ inside ++ ")" ∧ Balanced inside := by
  obtain ⟨a, here⟩ : ∃ a, World.definedOnce.session.arenas[0]? = some a := ⟨_, rfl⟩
  obtain ⟨texts, forms, braces⟩ := bracketsBalance World.definedOnceReachable here
  have leveled {r : NodeRef} (first : r ∈ [(⟨.scope, 0, 0⟩ : NodeRef), ⟨.decl, 0, 0⟩, ⟨.decl, 0, 1⟩, ⟨.type, 0, 1⟩,
      ⟨.scope, 0, 1⟩]) : a.Leveled r := by
    refine Arena.leveledWithin _ ?_ ?_ first <;> cases here <;> decide
  have whole : a.render ⟨.scope, 0, 0⟩ = .ok "int f();\nint f()\x7b\x7d\n" := by
    cases here
    rfl
  have balanced := texts ⟨.scope, 0, 0⟩ _ (leveled (by decide)) whole
  obtain ⟨data, found, plain, body⟩ : ∃ data, a.node (⟨0, 0⟩ : DeclRef) = .ok (.function data) ∧ data.special = none ∧
      data.body = some ⟨0, 1⟩ := by
    cases here
    exact ⟨_, rfl, rfl, rfl⟩
  have defined : a.render ⟨.decl, 0, 0⟩ = .ok "int f()\x7b\x7d" := by
    cases here
    rfl
  obtain ⟨head, inside, tail, split, _, inner⟩ :=
    braces .decl ⟨0, 0⟩ _ _ _ found (.function plain body) (leveled (by decide)) defined
  have bare : a.commented (⟨0, 0⟩ : DeclRef).ref (head ++ "\x7b" ++ inside ++ "\x7d" ++ tail) =
      head ++ "\x7b" ++ inside ++ "\x7d" ++ tail := by
    cases here
    rfl
  obtain ⟨b, ran⟩ : ∃ b, (Call.expr twoTerms).perform.run a = .ok (.expr ⟨0, 3⟩) b := by
    cases here
    exact ⟨_, rfl⟩
  obtain ⟨e, same, later⟩ := forms _ _ b rfl (World.allowsHeld (by decide) rfl (by decide)) ran
  cases same
  obtain ⟨c, there, enclosed⟩ := later _ .refl
  have below : c.Leveled (⟨0, 3⟩ : ExprRef).ref := by
    refine Arena.leveledWithin [⟨.expr, 0, 3⟩, ⟨.expr, 0, 2⟩, ⟨.expr, 0, 1⟩, ⟨.expr, 0, 0⟩] ?_ ?_ (by decide) <;>
      cases there <;> decide
  have quiet : c.commentsOf (⟨0, 3⟩ : ExprRef).ref = none := by
    cases there
    rfl
  have sum : c.render (⟨0, 3⟩ : ExprRef).ref = .ok "(g(x)+t[1])" := by
    cases there
    rfl
  exact ⟨a, c, here, whole, balanced, ⟨head, inside, tail, split.trans bare, inner⟩, there, sum,
    enclosed _ below quiet sum⟩

end CSource
