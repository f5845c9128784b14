import CSource.Proofs.Course.Worlds
import CSource.Proofs.Functions
import CSource.Proofs.Interning

/-!
What time does to an arena. Its lists only get longer, and a node stays at its place and of its kind: lists in it are
continued, a scope or mark that it lacked can be supplied once, its qualifiers can be exchanged, and the rest of it
is constant. `Follows` says this of two states of a node, however far apart. A handle to something new is new.
-/

namespace CSource

structure Aggregate.Follows (old new : Aggregate) : Prop where
  kind : new.kind = old.kind
  name : new.name = old.name
  bases : old.bases <+: new.bases
  regions : old.regions <+: new.regions
  opened : ∀ scope, old.defaultScope = some scope → new.defaultScope = some scope

structure Enumeration.Follows (old new : Enumeration) : Prop where
  name : new.name = old.name
  members : old.members <+: new.members

structure VarDecl.Follows (old new : VarDecl) : Prop where
  name : new.name = old.name
  ty : new.ty = old.ty
  init : new.init = old.init
  shape : new.shape = old.shape

structure FuncDecl.Follows (old new : FuncDecl) : Prop extends old.Continues new where
  parent : new.method.map (·.parent) = old.method.map (·.parent)
  inits : old.inits <+: new.inits

structure IfStmt.Follows (old new : IfStmt) : Prop where
  init : new.init = old.init
  cond : new.cond = old.cond
  isConstexpr : new.isConstexpr = old.isConstexpr
  body : new.body = old.body
  elseIfs : old.elseIfs <+: new.elseIfs
  otherwise : ∀ scope, old.otherwise = some scope → new.otherwise = some scope

structure SwitchStmt.Follows (old new : SwitchStmt) : Prop where
  init : new.init = old.init
  cond : new.cond = old.cond
  cases : old.cases <+: new.cases

structure TryStmt.Follows (old new : TryStmt) : Prop where
  body : new.body = old.body
  handlers : old.handlers <+: new.handlers

structure Conditional.Follows (old new : Conditional) : Prop where
  head : new.head = old.head
  body : new.body = old.body
  branch : new.branch = old.branch
  elifs : old.elifs <+: new.elifs
  otherwise : ∀ scope, old.otherwise = some scope → new.otherwise = some scope

structure ScopeNode.Follows (old new : ScopeNode) : Prop where
  kind : new.kind = old.kind
  entries : old.entries <+: new.entries

inductive TypeNode.Follows : TypeNode → TypeNode → Prop where
  | same (n : TypeNode) : Follows n n
  | aggregate {old new : Aggregate} (follows : old.Follows new) : Follows (.aggregate old) (.aggregate new)
  | enumeration {old new : Enumeration} (follows : old.Follows new) : Follows (.enumeration old) (.enumeration new)

inductive DeclNode.Follows : DeclNode → DeclNode → Prop where
  | same (n : DeclNode) : Follows n n
  | var {old new : VarDecl} (follows : old.Follows new) : Follows (.var old) (.var new)
  | function {old new : FuncDecl} (follows : old.Follows new) : Follows (.function old) (.function new)

inductive ExprNode.Follows : ExprNode → ExprNode → Prop where
  | same (n : ExprNode) : Follows n n
  | generic {control : ExprRef} {old new : List Association} (assocs : old <+: new) :
      Follows (.generic control old) (.generic control new)

inductive StmtNode.Follows : StmtNode → StmtNode → Prop where
  | same (n : StmtNode) : Follows n n
  | ifElse {old new : IfStmt} (follows : old.Follows new) : Follows (.ifElse old) (.ifElse new)
  | switch {old new : SwitchStmt} (follows : old.Follows new) : Follows (.switch old) (.switch new)
  | tryCatch {old new : TryStmt} (follows : old.Follows new) : Follows (.tryCatch old) (.tryCatch new)

inductive DirectiveNode.Follows : DirectiveNode → DirectiveNode → Prop where
  | same (n : DirectiveNode) : Follows n n
  | conditional {old new : Conditional} (follows : old.Follows new) : Follows (.conditional old) (.conditional new)

def Node.Follows : (c : Category) → Node c → Node c → Prop
  | .type, old, new => TypeNode.Follows old new
  | .decl, old, new => DeclNode.Follows old new
  | .expr, old, new => ExprNode.Follows old new
  | .stmt, old, new => StmtNode.Follows old new
  | .directive, old, new => DirectiveNode.Follows old new
  | .scope, old, new => ScopeNode.Follows old new

section Trans

theorem Aggregate.Follows.trans {a b c : Aggregate} (first : a.Follows b) (second : b.Follows c) : a.Follows c where
  kind := second.kind.trans first.kind
  name := second.name.trans first.name
  bases := first.bases.trans second.bases
  regions := first.regions.trans second.regions
  opened scope was := second.opened scope (first.opened scope was)

theorem Enumeration.Follows.trans {a b c : Enumeration} (first : a.Follows b) (second : b.Follows c) :
    a.Follows c where
  name := second.name.trans first.name
  members := first.members.trans second.members

theorem VarDecl.Follows.trans {a b c : VarDecl} (first : a.Follows b) (second : b.Follows c) : a.Follows c where
  name := second.name.trans first.name
  ty := second.ty.trans first.ty
  init := second.init.trans first.init
  shape := second.shape.trans first.shape

theorem FuncDecl.Follows.trans {a b c : FuncDecl} (first : a.Follows b) (second : b.Follows c) : a.Follows c where
  toContinues := first.toContinues.trans second.toContinues
  parent := second.parent.trans first.parent
  inits := first.inits.trans second.inits

theorem IfStmt.Follows.trans {a b c : IfStmt} (first : a.Follows b) (second : b.Follows c) : a.Follows c where
  init := second.init.trans first.init
  cond := second.cond.trans first.cond
  isConstexpr := second.isConstexpr.trans first.isConstexpr
  body := second.body.trans first.body
  elseIfs := first.elseIfs.trans second.elseIfs
  otherwise scope was := second.otherwise scope (first.otherwise scope was)

theorem SwitchStmt.Follows.trans {a b c : SwitchStmt} (first : a.Follows b) (second : b.Follows c) : a.Follows c where
  init := second.init.trans first.init
  cond := second.cond.trans first.cond
  cases := first.cases.trans second.cases

theorem TryStmt.Follows.trans {a b c : TryStmt} (first : a.Follows b) (second : b.Follows c) : a.Follows c where
  body := second.body.trans first.body
  handlers := first.handlers.trans second.handlers

theorem Conditional.Follows.trans {a b c : Conditional} (first : a.Follows b) (second : b.Follows c) :
    a.Follows c where
  head := second.head.trans first.head
  body := second.body.trans first.body
  branch := second.branch.trans first.branch
  elifs := first.elifs.trans second.elifs
  otherwise scope was := second.otherwise scope (first.otherwise scope was)

theorem ScopeNode.Follows.trans {a b c : ScopeNode} (first : a.Follows b) (second : b.Follows c) : a.Follows c where
  kind := second.kind.trans first.kind
  entries := first.entries.trans second.entries

end Trans

namespace Node.Follows

variable {c : Category} {x y z : Node c}

theorem refl (n : Node c) : Node.Follows c n n := by
  cases c with
  | type => exact .same n
  | decl => exact .same n
  | expr => exact .same n
  | stmt => exact .same n
  | directive => exact .same n
  | scope => exact ⟨rfl, List.prefix_refl _⟩

theorem trans (first : Node.Follows c x y) (second : Node.Follows c y z) : Node.Follows c x z := by
  cases c with
  | type =>
    cases first with
    | same => exact second
    | aggregate before =>
      cases second with
      | same => exact .aggregate before
      | aggregate after => exact .aggregate (before.trans after)
    | enumeration before =>
      cases second with
      | same => exact .enumeration before
      | enumeration after => exact .enumeration (before.trans after)
  | decl =>
    cases first with
    | same => exact second
    | var before =>
      cases second with
      | same => exact .var before
      | var after => exact .var (before.trans after)
    | function before =>
      cases second with
      | same => exact .function before
      | function after => exact .function (before.trans after)
  | expr =>
    cases first with
    | same => exact second
    | generic before =>
      cases second with
      | same => exact .generic before
      | generic after => exact .generic (before.trans after)
  | stmt =>
    cases first with
    | same => exact second
    | ifElse before =>
      cases second with
      | same => exact .ifElse before
      | ifElse after => exact .ifElse (before.trans after)
    | switch before =>
      cases second with
      | same => exact .switch before
      | switch after => exact .switch (before.trans after)
    | tryCatch before =>
      cases second with
      | same => exact .tryCatch before
      | tryCatch after => exact .tryCatch (before.trans after)
  | directive =>
    cases first with
    | same => exact second
    | conditional before =>
      cases second with
      | same => exact .conditional before
      | conditional after => exact .conditional (before.trans after)
  | scope => exact ScopeNode.Follows.trans first second

end Node.Follows

section Growth

theorem Aggregate.defaultScopeAppend {data : Aggregate} {scope : ScopeRef} (more : List Region)
    (opened : data.defaultScope = some scope) :
    Aggregate.defaultScope { data with regions := data.regions ++ more } = some scope := by
  obtain ⟨region, found, rfl⟩ := Option.map_eq_some_iff.mp opened
  simp [Aggregate.defaultScope, List.find?_append, found]

theorem TypeNode.Grows.follows {old new : TypeNode} (grows : TypeNode.Grows old new) : old.Follows new := by
  cases grows with
  | region data r first =>
    exact .aggregate ⟨rfl, rfl, List.prefix_refl _, List.prefix_append .., fun _ => data.defaultScopeAppend [r]⟩
  | base data b => exact .aggregate ⟨rfl, rfl, List.prefix_append .., List.prefix_refl _, fun _ => id⟩
  | final data isFinal => exact .aggregate ⟨rfl, rfl, List.prefix_refl _, List.prefix_refl _, fun _ => id⟩
  | member data m => exact .enumeration ⟨rfl, List.prefix_append ..⟩
  | underlying data ty => exact .enumeration ⟨rfl, List.prefix_refl _⟩
  | key data k => exact .enumeration ⟨rfl, List.prefix_refl _⟩

theorem DeclNode.Grows.follows {old new : DeclNode} (grows : DeclNode.Grows old new) : old.Follows new := by
  cases old with
  | function f =>
    obtain ⟨g, rfl, continues, _⟩ := DeclNode.Grows.function grows
    refine .function ⟨continues, ?_, ?_⟩
    · cases grows with
      | methodQualifiers data m quals member bodyless => simp [member]
      | _ => rfl
    · cases grows with
      | init data i constructs => exact List.prefix_append ..
      | _ => exact List.prefix_refl _
  | _ => cases grows <;> exact .var ⟨rfl, rfl, rfl, rfl⟩

theorem StmtNode.Grows.follows {old new : StmtNode} (grows : StmtNode.Grows old new) : old.Follows new := by
  cases grows with
  | elseIf data b => exact .ifElse ⟨rfl, rfl, rfl, rfl, List.prefix_append .., fun _ => id⟩
  | otherwise data scope absent => exact .ifElse ⟨rfl, rfl, rfl, rfl, List.prefix_refl _, by simp [absent]⟩
  | caseLabel data s => exact .switch ⟨rfl, rfl, List.prefix_append ..⟩
  | handler data h => exact .tryCatch ⟨rfl, List.prefix_append ..⟩

theorem DirectiveNode.Grows.follows {old new : DirectiveNode} (grows : DirectiveNode.Grows old new) :
    old.Follows new := by
  cases grows with
  | elif data e => exact .conditional ⟨rfl, rfl, rfl, List.prefix_append .., fun _ => id⟩
  | otherwise data scope absent => exact .conditional ⟨rfl, rfl, rfl, List.prefix_refl _, by simp [absent]⟩

theorem Node.growsFollows {c : Category} {old new : Node c} (grows : Grows c old new) : Follows c old new := by
  cases c with
  | type => exact TypeNode.Grows.follows grows
  | decl => exact DeclNode.Grows.follows grows
  | expr => cases grows with | association => exact .generic (List.prefix_append ..)
  | stmt => exact StmtNode.Grows.follows grows
  | directive => exact DirectiveNode.Grows.follows grows
  | scope => cases grows with | entry => exact ⟨rfl, List.prefix_append ..⟩

end Growth

/-- The second arena is a later state of the first. -/
structure Arena.Precedes (a b : Arena) : Prop where
  number : b.number = a.number
  dialect : b.dialect = a.dialect
  nodes : ∀ (c : Category) (i : Nat) (n : Node c), (a.nodes c)[i]? = some n →
    ∃ m, (b.nodes c)[i]? = some m ∧ Node.Follows c n m
  shared : ∀ t : Table, t.entries a <+: t.entries b

namespace Arena.Precedes

variable {a b c : Arena} {given : Slot → Prop}

theorem refl (a : Arena) : a.Precedes a :=
  ⟨rfl, rfl, fun _ _ n found => ⟨n, found, .refl n⟩, fun _ => List.prefix_refl _⟩

theorem trans (first : a.Precedes b) (second : b.Precedes c) : a.Precedes c where
  number := second.number.trans first.number
  dialect := second.dialect.trans first.dialect
  nodes d i n found := by
    obtain ⟨m, now, before⟩ := first.nodes d i n found
    obtain ⟨k, later, after⟩ := second.nodes d i m now
    exact ⟨k, later, before.trans after⟩
  shared t := (first.shared t).trans (second.shared t)

theorem node (precedes : a.Precedes b) {d : Category} {h : Handle d} {n : Node d} (found : a.node h = .ok n) :
    ∃ m, b.node h = .ok m ∧ Node.Follows d n m := by
  obtain ⟨own, stored⟩ := Arena.nodeIff.mp found
  obtain ⟨m, now, follows⟩ := precedes.nodes d _ _ stored
  exact ⟨m, Arena.nodeIff.mpr ⟨own.trans precedes.number.symm, now⟩, follows⟩

theorem sizes (precedes : a.Precedes b) (d : Category) : (a.nodes d).size ≤ (b.nodes d).size := by
  refine Nat.le_of_not_lt fun short => ?_
  obtain ⟨m, found, _⟩ := precedes.nodes d (b.nodes d).size _ (Array.getElem?_eq_getElem short)
  simp at found

theorem change (change : Change given a b) : a.Precedes b where
  number := change.number
  dialect := change.dialect
  nodes d i n found := by
    obtain ⟨m, now, evolved⟩ := change.keeps found
    refine ⟨m, now, ?_⟩
    rcases evolved with rfl | grows
    · exact .refl m
    · exact Node.growsFollows grows
  shared := change.entries

end Arena.Precedes

theorem Changes.precedes {given : Slot → Prop} {a b : Arena} (changes : Changes given a b) : a.Precedes b := by
  induction changes with
  | refl => exact .refl _
  | tail _ change ih => exact ih.trans (.change change)

section Runs

variable {p : Policy} {w v : World} {n : Nat} {a b : Arena}

theorem World.Run.precedes (sound : w.Sound p) (run : Run p w v) (here : w.session.arenas[n]? = some a) :
    ∃ b, v.session.arenas[n]? = some b ∧ a.Precedes b := by
  refine Run.induct (I := fun b => a.Precedes b) (fun _ change before => ?_) sound run here (.refl a)
  exact before.trans (.change change)

theorem World.Reachable.madePrecedes (reachable : w.Reachable p) (here : w.session.arenas[n]? = some a) {call : Call}
    (allowed : w.Allows p n call) {answer : Answer} (ran : call.perform.run a = .ok answer b)
    (run : Run p (w.act n call) v) : ∃ c, v.session.arenas[n]? = some c ∧ b.Precedes c :=
  run.precedes (reachable.act allowed).sound (actOk here ran)

theorem World.Sound.heldEarlier (sound : w.Sound p) (here : w.session.arenas[n]? = some a) {i : Issued}
    (holds : w.Holds p i) {t : Slot} (mem : t ∈ i.slots) {r : NodeRef} (beyond : a.Beyond r) : t.ref ≠ r := by
  rintro rfl
  -- what a client holds names a node, so its index is below the length of the list
  have settled := sound.settled here ((sound.holds holds).2 t mem)
  exact absurd (settled beyond.own) (Nat.not_lt.mpr beyond.index)

end Runs

/-- Whatever is done from some time on, the arena of that time precedes the later one; and of the handles that a call
hands out for what it has made, none is one that a client could use before. -/
theorem arenasOnlyGrow {p : Policy} {w : World} (reachable : w.Reachable p) {n : Nat} {a : Arena}
    (here : w.session.arenas[n]? = some a) :
    (∀ v, World.Run p w v → ∃ b, v.session.arenas[n]? = some b ∧ a.Precedes b ∧
      ∀ c, (a.nodes c).size ≤ (b.nodes c).size) ∧
    (∀ (call : Call) (answer : Answer) (b : Arena), w.Allows p n call → call.perform.run a = .ok answer b →
      call.allots a = true → ∀ s ∈ slotsOf answer.issued, s.ref.category ≠ .type →
      ∀ i, w.Holds p i → ∀ t ∈ i.slots, t.ref ≠ s.ref) := by
  have sound := reachable.sound
  constructor
  · intro v run
    obtain ⟨b, there, precedes⟩ := run.precedes sound here
    exact ⟨b, there, precedes, precedes.sizes⟩
  · intro call answer b allowed ran allots s mem untyped i holds t part
    have new := ((call.plainCourse a).succeeded ran).2 allots
    exact sound.heldEarlier here holds part (new s mem untyped)

def World.written : World :=
  ((empty.grow .cxx).act 0 .newTopLevel).act 0 (.putAny ⟨.topLevel, ⟨0, 0⟩⟩ (.raw "int x;"))

theorem World.writtenReachable : written.Reachable .strict := by
  refine .act (.act (Reachable.start.grow .cxx) ?_) ?_
  all_goals exact allowsHeld (by decide) rfl (by decide)

theorem writtenGrows :
    ∃ a b c, World.written.session.arenas[0]? = some a ∧
      (Call.putAny ⟨.topLevel, ⟨0, 0⟩⟩ (.raw "int y;")).perform.run a = .ok (.decl ⟨0, 1⟩) c ∧
      (World.written.act 0 (.putAny ⟨.topLevel, ⟨0, 0⟩⟩ (.raw "int y;"))).session.arenas[0]? = some b ∧
      a.Precedes b ∧ ∀ i, World.written.Holds .strict i → ∀ t ∈ i.slots, t.ref ≠ (⟨0, 1⟩ : DeclRef).ref := by
  obtain ⟨a, here⟩ : ∃ a, World.written.session.arenas[0]? = some a := ⟨_, rfl⟩
  have allowed : World.written.Allows .strict 0 (.putAny ⟨.topLevel, ⟨0, 0⟩⟩ (.raw "int y;")) :=
    World.allowsHeld (by decide) rfl (by decide)
  obtain ⟨c, ran⟩ :
      ∃ c, (Call.putAny ⟨.topLevel, ⟨0, 0⟩⟩ (.raw "int y;")).perform.run a = .ok (.decl ⟨0, 1⟩) c := by
    cases here
    exact ⟨_, rfl⟩
  obtain ⟨later, fresh⟩ := arenasOnlyGrow World.writtenReachable here
  obtain ⟨b, there, precedes, _⟩ := later _ (Relation.ReflTransGen.single (.call allowed rfl))
  exact ⟨a, b, c, here, ran, there, precedes, fresh _ _ c allowed ran rfl _ (List.mem_singleton_self _) (by decide)⟩

end CSource
