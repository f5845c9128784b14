import CSource.Proofs.Contents
import CSource.Proofs.Lifecycle
import CSource.Proofs.Persistence
import CSource.Proofs.Placing

/-!
Where directives stand. If scopes are filled only by calls that make what they put there, then every directive stands
at top level or in the scope of a function, and one with top-level scopes of its own stands at top level.
-/

namespace CSource

open Build

/-- The call does not make a scope of its own, nor put into one what another call has made. -/
def Call.isTyped : Call → Bool
  | looseScope _ _ => false
  | putAny _ call => call.allots
  | _ => true

/-- The directives that a scope is given by the calls that make them. -/
inductive ScopeKind.Takes : ScopeKind → DirectiveNode → Prop where
  | atTop (n : DirectiveNode) : Takes .topLevel n
  | inside (n : DirectiveNode) (low : ∀ body ∈ n.bodies, body.kind ≠ .topLevel) : Takes .function n

def Arena.Sorted (a : Arena) : Prop :=
  ∀ (s : ScopeRef) (m : ScopeNode) (d : DirectiveRef), a.node s = .ok m → .directive d ∈ m.entries →
    ∃ n, a.node d = .ok n ∧ m.kind.Takes n

def Entry.Fits (a : Arena) (kind : ScopeKind) (e : Entry) : Prop :=
  ∀ d, e = .directive d → ∃ n, a.node d = .ok n ∧ kind.Takes n

/-- If the action succeeds, then the last thing that it does is to put an entry that fits into the scope. -/
def Pushes {α : Type} (scope : ScopeRef) (kind : ScopeKind) (m : Build α) : Prop :=
  ∀ (a b : Arena) (x : α), m.run a = .ok x b →
    ∃ (mid : Arena) (e : Entry), e.Fits mid kind ∧ (pushEntry scope e).run mid = .ok () b

section Pushes

variable {α β : Type} {scope : ScopeRef} {kind : ScopeKind} {m : Build α} {f : α → Build β}

namespace Pushes

theorem after (rest : ∀ x, Pushes scope kind (f x)) : Pushes scope kind (m >>= f) := by
  intro a b y ran
  obtain ⟨x, mid, _, last⟩ := bindOk ran
  exact rest x mid b y last

theorem map {g : α → β} (first : Pushes scope kind m) : Pushes scope kind (m >>= fun x => pure (g x)) := by
  intro a b y ran
  obtain ⟨x, mid, done, last⟩ := bindOk ran
  cases last
  exact first a b x done

theorem mapped {g : α → β} (first : Pushes scope kind m) : Pushes scope kind (g <$> m) := by
  rw [map_eq_pure_bind]
  exact first.map

theorem discard {y : β} (first : Pushes scope kind m) :
    Pushes scope kind (Functor.discard m >>= fun _ => pure y) := by
  rw [Account.discardBind]
  exact first.map

theorem throw {cause : Misuse} : Pushes scope kind (MonadExcept.throw cause >>= f) := nofun

theorem entry {e : Entry} (other : ∀ d, e ≠ .directive d) : Pushes scope kind (pushEntry scope e) :=
  fun a _ _ ran => ⟨a, e, fun d same => absurd same (other d), ran⟩

theorem decl {d : DeclRef} : Pushes scope kind (pushDecl scope d) := .map (entry nofun)

theorem stmt {s : StmtRef} : Pushes scope kind (pushStmt scope s) := .map (entry nofun)

theorem declStmt {d : DeclRef} : Pushes scope kind (pushDeclStmt scope d) := .after fun _ => .map (entry nofun)

theorem placeStmt {n : StmtNode} : Pushes scope kind (placeStmt scope n) := .after fun _ => stmt

theorem placeExpr {e : ExprRef} : Pushes scope kind (placeExpr scope e) := .after fun _ => placeStmt

theorem placeFor {init : Option StmtRef} {cond step : Option ExprRef} :
    Pushes scope kind (placeFor scope init cond step) :=
  .after fun _ => .after fun _ => .after fun _ => .after fun _ => .map placeStmt

theorem placeNamedCall {callee : String} {args : List ExprRef} :
    Pushes scope kind (placeNamedCall scope callee args) :=
  .after fun _ => .after fun _ => placeExpr

theorem placeFunction {lifecycle : Lifecycle} {f : FunctionRef} :
    Pushes scope kind (placeFunction scope lifecycle f) := by
  unfold Build.placeFunction
  split
  · exact .after fun _ => .discard decl
  · exact .discard decl

theorem directive {n : DirectiveNode} (takes : kind.Takes n) : Pushes scope kind (placeDirective scope n) := by
  intro a b x ran
  obtain ⟨d, mid, made, last⟩ := bindOk ran
  cases (runAlloc .directive n a).symm.trans made
  obtain ⟨_, _, pushed, given⟩ := bindOk last
  cases given
  refine ⟨_, _, fun d same => ⟨n, ?_, takes⟩, pushed⟩
  cases same
  exact Arena.nodePushed

end Pushes

theorem AnyCall.pushes {call : AnyCall} (allots : call.allots = true) : Pushes scope kind (call.perform scope) := by
  cases call with
  | entry | decl | declStmt | stmt | directive => contradiction
  | raw => exact .mapped (.after fun _ => .decl)
  | var | arrayVar | constructedVar => exact .mapped (.after fun _ => .declStmt)
  | typeDef => exact .mapped (.after fun _ => .discard .declStmt)
  | usingType | varTemplate => exact .mapped (.after fun _ => .after fun _ => .discard .declStmt)
  | usingTemplate => exact .mapped (.after fun _ => .after fun _ => .after fun _ => .discard .declStmt)

theorem TagCall.pushes {call : TagCall} : Pushes scope kind (call.perform scope) := by
  cases call with
  | aggregate | enumeration => exact .mapped (.after fun _ => .discard .declStmt)
  | aggregateTemplate => exact .mapped (.after fun _ => .after fun _ => .after fun _ => .discard .declStmt)
  | declareAggregate | declareEnum => exact .mapped (.after fun _ => .declStmt)

theorem StmtCall.pushes {call : StmtCall} : Pushes scope kind (call.perform scope) := by
  cases call with
  | raw | empty | breakLoop | continueLoop | label | goto => exact .mapped .placeStmt
  | decl => exact .mapped (.after fun _ => .stmt)
  | expr => exact .mapped .placeExpr
  | ifElse =>
    exact .mapped (.after fun _ => .after fun _ => .after fun _ => .after fun _ => .after fun _ => .map .placeStmt)
  | whileLoop | doWhile => exact .mapped (.after fun _ => .after fun _ => .map .placeStmt)
  | forLoop => exact .mapped .placeFor
  | forDecl => exact .mapped (.after fun _ => .placeFor)
  | forExpr => exact .mapped (.after fun _ => .after fun _ => .placeFor)
  | forRange => exact .mapped (.after fun _ => .after fun _ => .after fun _ => .after fun _ => .map .placeStmt)
  | block => exact .mapped (.after fun _ => .discard .placeStmt)
  | returnValue | usingNamespace => exact .mapped (.after fun _ => .placeStmt)
  | labeledExpr | throwValue => exact .mapped (.after fun _ => .after fun _ => .placeStmt)
  | switch => exact .mapped (.after fun _ => .after fun _ => .after fun _ => .map .placeStmt)
  | tryCatch => exact .mapped (.after fun _ => .after fun _ => .map .placeStmt)
  | assign | call | delete => exact .mapped (.after fun _ => .placeExpr)
  | vaList => exact .mapped (.after fun _ => .after fun _ => .declStmt)
  | vaStart | vaCopy | vaEnd => exact .mapped .placeNamedCall

theorem branchTakes {branch : BranchKind} {n : DirectiveNode}
    (low : ∀ body ∈ n.bodies, body.kind = branch.scopeKind ∨ body.kind = .macroBody) : branch.scopeKind.Takes n := by
  cases branch with
  | topLevel => exact .atTop n
  | function =>
    refine .inside n fun body mem => ?_
    rcases low body mem with same | same
    all_goals exact same ▸ nofun

theorem DirectiveCall.pushes {call : DirectiveCall} {branch : BranchKind} :
    Pushes scope branch.scopeKind (call.perform scope branch) := by
  have bare {n : DirectiveNode} (none : n.bodies = []) : branch.scopeKind.Takes n := branchTakes (by simp [none])
  have repeated {piece : String} {count : Nat} : Pushes scope branch.scopeKind (placeRepeated scope piece count) := by
    unfold placeRepeated
    split
    · exact .throw
    · exact .directive (bare rfl)
  cases call with
  | conditional head =>
    exact .mapped (.after fun _ => .after fun body => .map (.directive (branchTakes (by simp [DirectiveNode.bodies,
      Conditional.scopes]))))
  | defineFunction =>
    exact .mapped (.after fun body => .map (.directive (branchTakes (by simp [DirectiveNode.bodies]))))
  | newlines | spaces | tabs => exact .mapped repeated
  | _ => exact .mapped (.directive (bare rfl))

theorem TopLevelCall.pushes {call : TopLevelCall} : Pushes scope .topLevel (call.perform scope) := by
  cases call with
  | function => exact .mapped (.after fun _ => .placeFunction)
  | defineFunction => exact .mapped (.after fun _ => .after fun _ => .discard .decl)
  | functionTemplate => exact .mapped (.after fun _ => .after fun _ => .discard .decl)
  | namespaceBlock => exact .mapped (.after fun _ => .after fun _ => .map (.directive (.atTop _)))
  | usingNamespace | usingName => exact .mapped (.after fun _ => .directive (.atTop _))

theorem MemberCall.pushes {call : MemberCall} : Pushes scope kind (call.perform scope) := by
  cases call with
  | method => exact .mapped (.after fun _ => .placeFunction)
  | methodTemplate => exact .mapped (.after fun _ => .after fun _ => .discard .decl)
  | constructor | destructor => exact .mapped (.after fun _ => .after fun _ => .placeFunction)

theorem acceptsBranch {q : PlaceKind} {branch : BranchKind} (taken : q.branch? = some branch)
    (accepted : Shape.acceptsScope (.place q) kind = true) : kind = branch.scopeKind := by
  cases q <;> cases taken <;> cases kind <;> first | rfl | contradiction

theorem acceptsNoMacro {q : PlaceKind} (taken : q.takesTypes = true) :
    Shape.acceptsScope (.place q) .macroBody ≠ true := by
  cases q <;> first | contradiction | nofun

theorem Call.pushes {call : Call} (typed : call.isTyped = true) (filled : call.filled? = some scope)
    (accepts : ∀ q : Place, q.scope = scope → q.slot ∈ slotsOf call.handles →
      Shape.acceptsScope (.place q.kind) kind = true) : Pushes scope kind call.perform := by
  cases call <;> try contradiction
  case putAny q call =>
    cases filled
    exact call.pushes typed
  case putTag q taken call =>
    cases filled
    exact call.pushes
  case putStmt q taken call =>
    cases filled
    exact call.pushes
  case putDirective q branch taken call =>
    cases filled
    cases acceptsBranch taken (accepts q rfl (List.mem_cons_self ..))
    exact call.pushes
  case putTopLevel q taken call =>
    cases filled
    have branch : q.kind.branch? = some .topLevel := by rw [taken]; rfl
    cases acceptsBranch branch (accepts q rfl (List.mem_cons_self ..))
    exact call.pushes
  case putMember q taken call =>
    cases filled
    exact call.pushes

end Pushes

section Standing

variable {p : Policy} {w : World} {a b c : Arena} {n : Nat} {call : Call}

def Arena.Unfilled (a b : Arena) : Prop :=
  ∀ (s : ScopeRef) (m : ScopeNode), b.node s = .ok m → a.node s = .ok m ∨ m.entries = []

theorem Arena.Unfilled.trans (first : a.Unfilled b) (second : b.Unfilled c) : a.Unfilled c :=
  fun s m found => (second s m found).elim (first s m) .inr

theorem unfilledPush {d : Category} {m : Node d} (blank : Node.Blank d m) : a.Unfilled (a.push d m) := by
  intro s k found
  by_cases last : s.ref = (a.nextHandle d).ref
  · cases congrArg NodeRef.category last
    cases refInjective last
    cases Except.ok.inj (Arena.nodePushed.symm.trans found)
    exact .inr blank
  · rw [Arena.nodePushOther last] at found
    exact .inl found

theorem Stocks.unfilled (stocks : Stocks a b) : a.Unfilled b := by
  induction stocks with
  | refl => exact fun _ _ => .inl
  | node _ n _ blank ih => exact ih.trans (unfilledPush blank)
  | owner _ kind n _ blank ih =>
    exact (ih.trans (unfilledPush (d := .scope) (m := ⟨kind, []⟩) rfl)).trans (unfilledPush blank)
  | @shared b _ t key ih =>
    refine ih.trans fun s m found => ?_
    rw [Table.nodeExtend] at found
    exact unfilledPush (d := .type) trivial s m found

theorem Acts.unfilled (acts : Acts a b) : a.Unfilled b := by
  have replaced {b : Arena} {d : Category} {h : Handle d} {old new : Node d} (inner : d ≠ .scope)
      (found : b.node h = .ok old) : b.Unfilled (b.replace h new) := by
    intro s m later
    rw [Arena.nodeReplaceOther (nodeOwn found) fun hit => inner (congrArg NodeRef.category hit).symm] at later
    exact .inl later
  cases acts with
  | rest => exact fun _ _ => .inl
  | grow new inner found same => exact replaced inner found
  | @house d h old kind new inner found more =>
    have opened : a.Unfilled (a.push .scope ⟨kind, []⟩) := unfilledPush (d := .scope) rfl
    exact opened.trans (replaced inner (Arena.nodePushKeeps _ found))
  | comment r f =>
    intro s m found
    rw [Arena.nodeSetComments] at found
    exact .inl found

theorem ScopeKind.Takes.follows {kind : ScopeKind} {x y : DirectiveNode} (takes : kind.Takes x) (follows : x.Follows y) :
    kind.Takes y := by
  cases takes with
  | atTop => exact .atTop y
  | inside _ low =>
    refine .inside y ?_
    cases follows with
    | same => exact low
    | conditional follows =>
      -- all branches are of the kind of the first
      have first := low _ (List.mem_cons_self ..)
      refine List.forall_mem_map.mpr fun _ _ => ?_
      rw [follows.branch]
      exact first

theorem Arena.Sorted.later (sorted : a.Sorted) (precedes : a.Precedes b)
    (scopes : ∀ (s : ScopeRef) (m : ScopeNode), b.node s = .ok m → (a.node s = .ok m ∨ m.entries = []) ∨
      ∃ k e, a.node s = .ok k ∧ m = { k with entries := k.entries ++ [e] } ∧ e.Fits b k.kind) : b.Sorted := by
  intro s m d found listed
  have older {k : ScopeNode} (before : a.node s = .ok k) (there : .directive d ∈ k.entries) :
      ∃ n, b.node d = .ok n ∧ k.kind.Takes n := by
    obtain ⟨x, stored, takes⟩ := sorted s k d before there
    obtain ⟨y, now, follows⟩ := precedes.node stored
    exact ⟨y, now, takes.follows follows⟩
  rcases scopes s m found with (kept | none) | ⟨k, e, before, rfl, fits⟩
  · exact older kept listed
  · rw [none] at listed
    contradiction
  · rcases List.mem_append.mp listed with there | last
    · exact older (k := k) before there
    · exact fits d (List.mem_singleton.mp last).symm

theorem Pushes.fits {α : Type} {scope : ScopeRef} {m : ScopeNode} {e : Entry} {act : Build α} {x : α}
    (pushes : Pushes scope m.kind act) (ran : act.run a = .ok x b)
    (filled : b.node scope = .ok { m with entries := m.entries ++ [e] }) : e.Fits b m.kind := by
  obtain ⟨mid, last, fits, pushed⟩ := pushes a b x ran
  obtain ⟨k, there, rfl⟩ := pushEntryOk pushed
  have both := Except.ok.inj ((Arena.replacedNode there _).symm.trans filled)
  have entries : k.entries ++ [last] = m.entries ++ [e] := congrArg ScopeNode.entries both
  cases (List.append_inj' entries rfl).2
  intro d same
  obtain ⟨y, stored, takes⟩ := fits d same
  exact ⟨y, (Arena.nodeReplaceOther (nodeOwn there) (by simp [Handle.ref])).trans stored, takes⟩

theorem World.Sound.placeKind (sound : w.Sound p) (tight : p.looseScopes = false) (fixed : p.recast = false)
    (allowed : w.Allows p n call) (here : w.session.arenas[n]? = some a) {q : Place}
    (mem : q.slot ∈ slotsOf call.handles) {m : ScopeNode} (found : a.node q.scope = .ok m) :
    Shape.acceptsScope (.place q.kind) m.kind = true := by
  obtain ⟨k, there, accepted, _⟩ := (sound.trusted allowed here).keeps _ (sound.issued allowed _ mem) (nodeOwn found)
  cases Option.some.inj (there.symm.trans (Arena.nodeIff.mp found).2)
  exact accepted (by simp [Policy.trusts, Place.slot, Handle.as, tight, fixed])

theorem World.Sound.sorts (sound : w.Sound p) (tight : p.looseScopes = false) (fixed : p.recast = false)
    (allowed : w.Allows p n call) (here : w.session.arenas[n]? = some a) (typed : call.isTyped = true)
    {result : Except Misuse Answer} (ends : Ends call.perform a result b) (sorted : a.Sorted) : b.Sorted := by
  refine sorted.later (sound.outcome allowed here ends).changes.precedes fun s m found => ?_
  have course := call.plainCourse a
  cases result with
  | error cause =>
    obtain ⟨mid, stocks, marked⟩ := (course.refused ends).1
    have kept : mid.node s = .ok m := by
      rcases marked with rfl | defines
      · exact found
      · exact (defines.nodeOther s nofun).symm.trans found
    exact .inl (stocks.unfilled s m kept)
  | ok answer =>
    cases filled : call.filled? with
    | none =>
      obtain ⟨⟨mid, stocks, last⟩, _⟩ := course.succeeded ends
      unfold Call.Last at last
      rw [filled] at last
      exact .inl ((stocks.unfilled.trans last.unfilled) s m found)
    | some scope =>
      obtain ⟨mid, top, k, e, stocks, marked, before, there, rfl⟩ := sound.placing allowed here filled ends
      have after := Arena.replacedNode there { k with entries := k.entries ++ [e] }
      by_cases hit : s = scope
      · subst hit
        have pushes : Pushes s k.kind call.perform := call.pushes typed filled fun q same mem =>
          sound.placeKind tight fixed allowed here mem (same ▸ before)
        exact .inr ⟨k, e, before, (Except.ok.inj (after.symm.trans found)).symm, pushes.fits ends after⟩
      · have fills : Fills scope mid _ := ⟨top, marked, k, e, there, rfl⟩
        rw [fills.keepsOther hit] at found
        exact .inl (stocks.unfilled s m found)

theorem Arena.sortedNew (n : Nat) (d : Dialect) : (Arena.new n d).Sorted := by
  intro s m _ found
  have there := (Arena.nodeIff.mp found).2
  simp [Arena.new, Arena.nodes] at there

end Standing

namespace World

variable {p : Policy} {es : List Event} {w v : World}

theorem History.sorted (history : w.History p es) (typed : ∀ e ∈ es, e.call.isTyped = true)
    (tight : p.looseScopes = false) (fixed : p.recast = false) :
    ∀ (n : Nat) (a : Arena), w.session.arenas[n]? = some a → a.Sorted := by
  induction history with
  | start => simp [empty, Session.empty]
  | newArena before d ih => exact Session.newForall (Arena.sortedNew _ d) (ih typed)
  | ask before held ran ih => exact ih typed
  | call before allowed ran ih =>
    obtain ⟨earlier, last⟩ := List.forall_mem_append.mp typed
    obtain ⟨a, b, here, rfl, ends⟩ := Session.stepCases ran
    have sorted := before.reachable.sound.sorts tight fixed allowed here (last _ (List.mem_singleton_self _)) ends
    exact Session.afterForall (sorted (ih earlier _ a here)) (ih earlier)

end World

end CSource
