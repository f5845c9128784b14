import CSource.Proofs.Touched

/-!
The course of a call. Whatever a call does it does in two stages: it stocks the arena with new nodes, each of which
owns no scope or one that was made for it, and then acts once on what was there before. A refused call has stocked
only, unless it marked a function and was refused the scope to put it into. The judgement `Course` says this of an
action, and also which handles are new and that a handle of the right shape is never refused for its shape.
-/

namespace CSource

open Build

/-- A scope that a node owns, and the kind that it has as part of that node. -/
structure Body where
  scope : ScopeRef
  kind : ScopeKind
  deriving DecidableEq, Repr

def functionBodies (scopes : List ScopeRef) : List Body := scopes.map (⟨·, .function⟩)

def Aggregate.bodies (self : TypeRef) (data : Aggregate) : List Body :=
  data.regions.map fun r => ⟨r.scope, .members self r.access.isSome⟩

def TypeNode.bodies (self : TypeRef) : TypeNode → List Body
  | aggregate data => data.bodies self
  | _ => []

def DeclNode.bodies : DeclNode → List Body
  | function data => functionBodies data.body.toList
  | _ => []

def ExprNode.bodies : ExprNode → List Body
  | lambda data => functionBodies [data.body]
  | _ => []

def IfStmt.scopes (data : IfStmt) : List ScopeRef :=
  data.body :: data.elseIfs.map (·.body) ++ data.otherwise.toList

def StmtNode.bodies : StmtNode → List Body
  | ifElse data => functionBodies data.scopes
  | whileLoop _ body | forLoop _ _ _ body | forRange _ _ body | doWhile _ body | block body => functionBodies [body]
  | caseLabel data => functionBodies [data.body]
  | tryCatch data => functionBodies (data.body :: data.handlers.map (·.body))
  | _ => []

def Conditional.scopes (data : Conditional) : List ScopeRef :=
  data.body :: data.elifs.map (·.body) ++ data.otherwise.toList

def DirectiveNode.bodies : DirectiveNode → List Body
  | defineFunction _ _ body => [⟨body, .macroBody⟩]
  | conditional data => data.scopes.map (⟨·, data.branch.scopeKind⟩)
  | namespaceBlock _ body => [⟨body, .topLevel⟩]
  | _ => []

namespace Node

/-- The scopes that a node owns. The handle is the node's own, which its member scopes refer to. -/
def bodies : (c : Category) → Handle c → Node c → List Body
  | .type, self, n => TypeNode.bodies self n
  | .decl, _, n => DeclNode.bodies n
  | .expr, _, n => ExprNode.bodies n
  | .stmt, _, n => StmtNode.bodies n
  | .directive, _, n => DirectiveNode.bodies n
  | .scope, _, _ => []

def Blank : (c : Category) → Node c → Prop
  | .decl, .function f => f.defined = false
  | .scope, n => ScopeNode.entries n = []
  | _, _ => True

theorem Blank.unmarked {c : Category} {n : Node c} (blank : Blank c n) : Unmarked c n := by
  cases c with
  | decl => cases n <;> exact blank
  | _ => trivial

end Node

/-- New nodes are stored, and nothing else happens. A node that owns a scope owns one that was stored for it. -/
inductive Stocks (a : Arena) : Arena → Prop where
  | refl : Stocks a a
  | node {b : Arena} {c : Category} (before : Stocks a b) (n : Node c) (bare : ∀ self, Node.bodies c self n = [])
      (blank : Node.Blank c n) : Stocks a (b.push c n)
  | owner {b : Arena} {c : Category} (before : Stocks a b) (kind : ScopeKind) (n : Node c)
      (owns : ∀ self, Node.bodies c self n = [⟨b.nextHandle .scope, kind⟩]) (blank : Node.Blank c n) :
      Stocks a ((b.push .scope ⟨kind, []⟩).push c n)
  | shared {b : Arena} (before : Stocks a b) (t : Table) (key : t.Key) : Stocks a (t.extend key b)

/-- The one thing that a call does to what was there before, unless it fills a scope. -/
inductive Acts (a : Arena) : Arena → Prop where
  | rest : Acts a a
  | grow {c : Category} {h : Handle c} {old : Node c} (new : Node c) (inner : c ≠ .scope) (found : a.node h = .ok old)
      (same : Node.bodies c h new = Node.bodies c h old) : Acts a (a.replace h new)
  | house {c : Category} {h : Handle c} {old : Node c} (kind : ScopeKind) (new : Node c) (inner : c ≠ .scope)
      (found : a.node h = .ok old)
      (more : (Node.bodies c h new).Perm (⟨a.nextHandle .scope, kind⟩ :: Node.bodies c h old)) :
      Acts a ((a.push .scope ⟨kind, []⟩).replace h new)
  | comment (r : NodeRef) (f : Comments → Comments) : Acts a (a.setComments r f)

def Defines (a b : Arena) : Prop :=
  ∃ (h : DeclRef) (f : FuncDecl), a.node h = .ok (.function f) ∧ b = a.replace h (.function { f with defined := true })

def Puts (scope : ScopeRef) (a b : Arena) : Prop :=
  ∃ (n : ScopeNode) (e : Entry), a.node scope = .ok n ∧ b = a.replace scope { n with entries := n.entries ++ [e] }

/-- A scope is filled: one entry is put at its end, and if that is a split function it may be marked before. -/
def Fills (scope : ScopeRef) (a b : Arena) : Prop := ∃ mid, (mid = a ∨ Defines a mid) ∧ Puts scope mid b

/-- What a refused call leaves behind. -/
def Leaves (a b : Arena) : Prop := ∃ mid, Stocks a mid ∧ (b = mid ∨ Defines mid b)

namespace Arena

structure Beyond (a : Arena) (r : NodeRef) : Prop where
  own : r.arena = a.number
  index : (a.nodes r.category).size ≤ r.index

end Arena

namespace Stocks

variable {a b c : Arena} {scope : ScopeRef}

theorem trans (first : Stocks a b) (second : Stocks b c) : Stocks a c := by
  induction second with
  | refl => exact first
  | node _ n bare blank ih => exact .node ih n bare blank
  | owner _ kind n owns blank ih => exact .owner ih kind n owns blank
  | shared _ t key ih => exact .shared ih t key

theorem frame (stocks : Stocks a b) : Frame [] [] a b := by
  induction stocks with
  | refl => exact .refl
  | node _ n bare blank ih => exact ih.trans (.push blank.unmarked)
  | owner _ kind n owns blank ih => exact ih.trans (.trans (.push (c := .scope) trivial) (.push blank.unmarked))
  | shared _ t key ih => exact ih.trans (.extend t key)

theorem number (stocks : Stocks a b) : b.number = a.number := stocks.frame.number

theorem keepsNode (stocks : Stocks a b) {d : Category} {h : Handle d} {n : Node d} (found : a.node h = .ok n) :
    b.node h = .ok n :=
  stocks.frame.node List.not_mem_nil found

theorem keepsHas (stocks : Stocks a b) {s : Slot} (has : a.Has s) : b.Has s := by
  obtain ⟨own, n, found, accepted, parent⟩ := has
  have here : a.node s.ref.handle = .ok n := Arena.nodeIff.mpr ⟨own, found⟩
  refine ⟨own.trans stocks.number.symm, n, (Arena.nodeIff.mp (stocks.keepsNode here)).2, accepted, ?_⟩
  rw [stocks.number]
  exact parent

theorem beyond (stocks : Stocks a b) {r : NodeRef} (beyond : b.Beyond r) : a.Beyond r :=
  ⟨beyond.own.trans stocks.number, Nat.le_trans (stocks.frame.sizes _) beyond.index⟩

end Stocks

theorem Stocks.leaves {a b : Arena} (stocks : Stocks a b) : Leaves a b := ⟨b, stocks, .inl rfl⟩

theorem Leaves.since {a b c : Arena} (stocks : Stocks a b) (leaves : Leaves b c) : Leaves a c := by
  obtain ⟨mid, further, marked⟩ := leaves
  exact ⟨mid, stocks.trans further, marked⟩

theorem Defines.nodeOther {a b : Arena} (defines : Defines a b) {c : Category} (h : Handle c) (other : c ≠ .decl) :
    b.node h = a.node h := by
  obtain ⟨d, f, found, rfl⟩ := defines
  exact Arena.nodeReplaceOther (nodeOwn found) fun hit => other (congrArg NodeRef.category hit)

theorem Fills.keepsOther {scope s : ScopeRef} {a b : Arena} (fills : Fills scope a b) (other : s ≠ scope) :
    b.node s = a.node s := by
  obtain ⟨mid, marked, n, e, here, rfl⟩ := fills
  refine (Arena.nodeReplaceOther (nodeOwn here) fun hit => other (refInjective hit)).trans ?_
  rcases marked with rfl | defines
  · rfl
  · exact defines.nodeOther s nofun

theorem Arena.nextBeyond (a : Arena) (c : Category) : a.Beyond (a.nextHandle c).ref :=
  ⟨rfl, Nat.le_refl _⟩

/-- The call took a handle for a node of another shape, or for a node where there is none. A declaration of any
shape can be asked for its qualifiers as a variable. -/
def Misuse.isMistyped : Misuse → Bool
  | emptyHandle _ => true
  | unexpected wanted _ => wanted != .variable
  | _ => false

/-- The action changes nothing. It refuses a handle for its arena or a construct for its dialect. -/
def Vets (m : Build Unit) : Prop :=
  ∀ a, m.run a = .ok () a ∨ ∃ cause, m.run a = .error cause a ∧ cause.isMistyped = false

namespace Vets

theorem pure : Vets (Pure.pure ()) := fun _ => .inl rfl

theorem own {c : Category} (h : Handle c) : Vets (own h) := by
  intro a
  rw [runOwns]
  split
  · exact .inl rfl
  · exact .inr ⟨_, rfl, rfl⟩

theorem require (f : Feature) : Vets (require f) := by
  intro a
  rw [runRequire]
  split
  · exact .inl rfl
  · exact .inr ⟨_, rfl, rfl⟩

theorem requireIf (condition : Bool) (f : Feature) : Vets (requireIf condition f) := by
  cases condition with
  | false => exact pure
  | true => exact require f

theorem forM {α : Type} {f : α → Build Unit} (each : ∀ x, Vets (f x)) (xs : List α) : Vets (xs.forM f) := by
  intro a
  induction xs with
  | nil => exact .inl rfl
  | cons x xs ih =>
    unfold List.forM
    rw [EStateM.run_bind]
    rcases each x a with ran | ⟨cause, ran, typed⟩
    · rw [ran]
      exact ih
    · rw [ran]
      exact .inr ⟨cause, rfl, typed⟩

theorem ownEach {c : Category} (hs : List (Handle c)) : Vets (ownEach hs) := forM own hs

theorem ownOption {c : Category} (h : Option (Handle c)) : Vets (ownOption h) := by
  cases h with
  | none => exact pure
  | some h => exact own h

theorem ownArgs (args : List TemplateArg) : Vets (ownArgs args) := by
  refine forM (fun arg => ?_) args
  cases arg <;> exact own _

theorem ownEntry (e : Entry) : Vets (ownEntry e) := by
  cases e <;> exact own _

theorem ownFold (kind : Fold) : Vets (ownFold kind) := by
  cases kind <;> first | exact pure | exact own _

theorem ownCondition (head : Condition) : Vets (ownCondition head) := by
  cases head <;> first | exact pure | exact own _

end Vets

/-- How an action that is started from `a` may end. Where the handles can be trusted it is not refused for their
shape. -/
def Finishes {α : Type} (trust : Prop) (a : Arena) (last : Arena → Arena → Prop) (post : α → Prop) :
    EStateM.Result Misuse Arena α → Prop
  | .ok x c => (∃ mid, Stocks a mid ∧ last mid c) ∧ post x
  | .error cause c => Leaves a c ∧ (trust → cause.isMistyped = false)

/-- Started on an arena that has been stocked from `a`, the action stocks it further and then does `last`. -/
def Course {α : Type} (trust : Prop) (a : Arena) (last : Arena → Arena → Prop) (m : Build α) (post : α → Prop) : Prop :=
  ∀ b, Stocks a b → Finishes trust a last post (m.run b)

section Finishes

variable {trust : Prop} {a b : Arena} {last last' : Arena → Arena → Prop} {α : Type} {post post₁ : α → Prop}
  {result : EStateM.Result Misuse Arena α}

theorem Finishes.since (stocks : Stocks a b) (done : Finishes trust b last post result) :
    Finishes trust a last post result := by
  cases result with
  | error cause c => exact ⟨done.1.since stocks, done.2⟩
  | ok x c =>
    obtain ⟨⟨mid, further, final⟩, holds⟩ := done
    exact ⟨⟨mid, stocks.trans further, final⟩, holds⟩

theorem Finishes.weaken (done : Finishes trust a last post₁ result) (ends : ∀ b c, last b c → last' b c)
    (holds : ∀ x, post₁ x → post x) : Finishes trust a last' post result := by
  cases result with
  | error cause c => exact done
  | ok x c =>
    obtain ⟨⟨mid, stocked, final⟩, here⟩ := done
    exact ⟨⟨mid, stocked, ends mid c final⟩, holds x here⟩

end Finishes

namespace Course

variable {trust : Prop} {a : Arena} {last : Arena → Arena → Prop} {α β : Type} {m : Build α} {f : α → Build β}
  {post : β → Prop}

theorem pure {x : β} (idle : ∀ b, last b b) (holds : post x) : Course trust a last (Pure.pure x) post :=
  fun b stocks => ⟨⟨b, stocks, idle b⟩, holds⟩

theorem give {x : β} (holds : post x) : Course trust a Eq (Pure.pure x) post := pure (fun _ => rfl) holds

theorem throw {cause : Misuse} (typed : trust → cause.isMistyped = false) :
    Course trust a last (throw cause : Build β) post :=
  fun _ stocks => ⟨stocks.leaves, typed⟩

theorem throwBind {cause : Misuse} (typed : trust → cause.isMistyped = false) :
    Course trust a last ((MonadExcept.throw cause : Build α) >>= f) post :=
  fun _ stocks => ⟨stocks.leaves, typed⟩

theorem bind {post₁ : α → Prop} (first : Course trust a Eq m post₁)
    (rest : ∀ x, post₁ x → Course trust a last (f x) post) : Course trust a last (m >>= f) post := by
  intro b stocks
  have begun := first b stocks
  rw [EStateM.run_bind]
  cases ran : m.run b with
  | error cause c =>
    rw [ran] at begun
    exact begun
  | ok x c =>
    rw [ran] at begun
    obtain ⟨⟨mid, further, rfl⟩, holds⟩ := begun
    exact rest x holds mid further

theorem map {post₁ : α → Prop} {g : α → β} (first : Course trust a last m post₁) (holds : ∀ x, post₁ x → post (g x)) :
    Course trust a last (m >>= fun x => Pure.pure (g x)) post := by
  intro b stocks
  have done := first b stocks
  rw [EStateM.run_bind]
  cases ran : m.run b with
  | error cause c =>
    rw [ran] at done
    exact done
  | ok x c =>
    rw [ran] at done
    exact ⟨done.1, holds x done.2⟩

theorem mapped {post₁ : α → Prop} {g : α → β} (first : Course trust a last m post₁)
    (holds : ∀ x, post₁ x → post (g x)) : Course trust a last (g <$> m) post := by
  rw [map_eq_pure_bind]
  exact first.map holds

theorem answers {g : α → β} (first : Course trust a last m fun x => post (g x)) : Course trust a last (g <$> m) post :=
  first.mapped fun _ => id

theorem discard {post₁ : α → Prop} {y : β} (first : Course trust a last m post₁) (holds : post y) :
    Course trust a last (Functor.discard m >>= fun _ => Pure.pure y) post := by
  rw [Account.discardBind]
  exact first.map fun _ _ => holds

theorem silently {act : Build Unit} {post : Answer → Prop} (first : Course trust a last act fun _ => True)
    (holds : post .nothing) : Course trust a last (silently act) post :=
  first.map fun _ _ => holds

theorem weaken {post₁ : β → Prop} {m : Build β} (first : Course trust a last m post₁) (holds : ∀ x, post₁ x → post x) :
    Course trust a last m post :=
  fun b stocks => (first b stocks).weaken (fun _ _ => id) holds

theorem conclude {last' : Arena → Arena → Prop} {m : Build β} (first : Course trust a last m post)
    (weaker : ∀ b c, last b c → last' b c) : Course trust a last' m post :=
  fun b stocks => (first b stocks).weaken weaker fun _ => id

theorem vet {m : Build Unit} {f : Unit → Build β} (vets : Vets m) (rest : Course trust a last (f ()) post) :
    Course trust a last (m >>= f) post := by
  intro b stocks
  rw [EStateM.run_bind]
  rcases vets b with ran | ⟨cause, ran, typed⟩
  · rw [ran]
    exact rest b stocks
  · rw [ran]
    exact ⟨stocks.leaves, fun _ => typed⟩

theorem request (t : Table) {key : t.Key} : Course trust a Eq (t.request key) fun _ => True := by
  intro b stocks
  rw [Table.runRequest]
  cases (t.entries b).lookup key with
  | some ty => exact ⟨⟨b, stocks, rfl⟩, trivial⟩
  | none => exact ⟨⟨_, .shared stocks t key, rfl⟩, trivial⟩

theorem alloc {c : Category} {n : Node c} (bare : ∀ self, Node.bodies c self n = []) (blank : Node.Blank c n) :
    Course trust a Eq (alloc c n) fun h => a.Beyond h.ref :=
  fun b stocks => ⟨⟨_, .node stocks n bare blank, rfl⟩, stocks.beyond (b.nextBeyond c)⟩

theorem newScope {kind : ScopeKind} : Course trust a Eq (newScope kind) fun s => a.Beyond s.ref :=
  alloc (fun _ => rfl) rfl

theorem owner {kind : ScopeKind} {c : Category} {n : ScopeRef → Node c} {g : ScopeRef → Handle c → Build β}
    (owns : ∀ self scope, Node.bodies c self (n scope) = [⟨scope, kind⟩]) (blank : ∀ scope, Node.Blank c (n scope))
    (rest : ∀ scope h, a.Beyond scope.ref → a.Beyond h.ref → Course trust a last (g scope h) post) :
    Course trust a last (Build.newScope kind >>= fun scope => Build.alloc c (n scope) >>= g scope) post := by
  intro b stocks
  have stocked := Stocks.owner stocks kind (n (b.nextHandle .scope)) (fun self => owns self _) (blank _)
  have held : Stocks a (b.push .scope ⟨kind, []⟩) := .node stocks (c := .scope) ⟨kind, []⟩ (fun _ => rfl) rfl
  exact rest _ _ (stocks.beyond (b.nextBeyond .scope)) (held.beyond (Arena.nextBeyond _ c)) _ stocked

theorem read {g : Arena → Except Misuse α}
    (typed : trust → ∀ b cause, Stocks a b → g b = .error cause → cause.isMistyped = false)
    (rest : ∀ b x, Stocks a b → g b = .ok x → Course trust b last (f x) post) :
    Course trust a last (read g >>= f) post := by
  intro b stocks
  rw [EStateM.run_bind, runRead]
  cases found : g b with
  | error cause => exact ⟨stocks.leaves, fun trusted => typed trusted b cause stocks found⟩
  | ok x =>
    -- what was read holds of this arena, so the rest starts anew from it
    exact (rest b x stocks found b .refl).since stocks

theorem scopeRead {kind : ScopeKind} {g : Arena → Except Misuse α} {k : ScopeRef → α → Build β}
    (blind : ∀ b n, g (b.push .scope n) = g b)
    (typed : trust → ∀ b cause, Stocks a b → g b = .error cause → cause.isMistyped = false)
    (rest : ∀ b x, Stocks a b → g b = .ok x →
      Course trust b last (Build.newScope kind >>= fun scope => k scope x) post) :
    Course trust a last (Build.newScope kind >>= fun scope => Build.read g >>= k scope) post := by
  intro b stocks
  have held : Stocks a (b.push .scope ⟨kind, []⟩) := .node stocks (c := .scope) ⟨kind, []⟩ (fun _ => rfl) rfl
  rw [EStateM.run_bind, Build.newScope, runAlloc]
  dsimp only
  rw [EStateM.run_bind, runRead, blind]
  cases found : g b with
  | error cause => exact ⟨held.leaves, fun trusted => typed trusted b cause stocks found⟩
  | ok x =>
    -- the rest is given for an arena that does not have the scope yet, where the same is read
    have done := rest b x stocks found b .refl
    rw [EStateM.run_bind, Build.newScope, runAlloc] at done
    exact done.since stocks

theorem grow {c : Category} {h : Handle c} {old new : Node c} (inner : c ≠ .scope) (found : a.node h = .ok old)
    (same : Node.bodies c h new = Node.bodies c h old) : Course trust a Acts (update h new) fun _ => True :=
  fun b stocks => ⟨⟨b, stocks, .grow new inner (stocks.keepsNode found) same⟩, trivial⟩

theorem house {kind : ScopeKind} {c : Category} {h : Handle c} {old : Node c} {new : ScopeRef → Node c}
    {g : ScopeRef → β} (inner : c ≠ .scope) (found : a.node h = .ok old)
    (more : ∀ scope, (Node.bodies c h (new scope)).Perm (⟨scope, kind⟩ :: Node.bodies c h old))
    (holds : ∀ scope, a.Beyond scope.ref → post (g scope)) :
    Course trust a Acts
      (Build.newScope kind >>= fun scope => update h (new scope) >>= fun _ => Pure.pure (g scope)) post := by
  intro b stocks
  have housed : Acts b _ := .house kind (new (b.nextHandle .scope)) inner (stocks.keepsNode found) (more _)
  exact ⟨⟨b, stocks, housed⟩, holds _ (stocks.beyond (b.nextBeyond .scope))⟩

end Course

end CSource
