import CSource.Proofs.Soundness

/-!
What a node keeps from the day it is stored. A property of single nodes that a new node has and that growth keeps
holds of every node of every arena that can be reached; functions are the first use of it. `Lawful` is the state of
a function at any time, `Continues` what its later states owe to an earlier one.
-/

namespace CSource

/-- A property of single nodes that the ways of storing and changing a node respect. -/
structure NodeLaw (P : Dialect → (c : Category) → Node c → Prop) : Prop where
  void (d : Dialect) : P d .type .void
  born {d : Dialect} {c : Category} {n : Node c} (initial : Node.Initial c n)
    (allowed : ∀ f ∈ Node.features c n, d = f.dialect) : P d c n
  shared {d : Dialect} (t : Table) (key : t.Key)
    (allowed : ∀ f ∈ (t.interning.node key).features, d = f.dialect) : P d .type (t.interning.node key)
  grown {d : Dialect} {c : Category} {old new : Node c} (grows : Node.Grows c old new)
    (allowed : ∀ f ∈ Node.features c new, f ∈ Node.features c old ∨ d = f.dialect) (holds : P d c old) : P d c new

def Arena.Each (P : (c : Category) → Node c → Prop) (a : Arena) : Prop :=
  ∀ (c : Category) (i : Nat) (m : Node c), (a.nodes c)[i]? = some m → P c m

section NodeLaw

variable {P : Dialect → (c : Category) → Node c → Prop} {p : Policy} {given : Slot → Prop} {a b : Arena}

theorem NodeLaw.new (law : NodeLaw P) (n : Nat) (d : Dialect) : (Arena.new n d).Each (P d) := by
  intro c i m found
  cases c with
  | type =>
    cases i with
    | zero =>
      cases Option.some.inj found
      exact law.void d
    | succ i => simp [Arena.nodes, Arena.new] at found
  | _ => simp [Arena.nodes, Arena.new] at found

theorem NodeLaw.change (law : NodeLaw P) (change : Change given a b) (holds : a.Each (P a.dialect)) :
    b.Each (P b.dialect) := by
  rw [change.dialect]
  cases change with
  | alloc n born => exact Arena.pushForall holds (law.born born.initial born.allowed)
  | intern t key miss known allowed =>
    intro c i m found
    rw [Table.nodesExtend] at found
    exact Arena.pushForall (c := .type) holds (law.shared t key allowed) c i m found
  | grow h old new here grown =>
    have before := holds _ h.index old (Arena.nodeIff.mp here).2
    exact Arena.replaceForall holds (law.grown grown.grows grown.allowed before)
  | comment r f own known =>
    intro c i m found
    rw [Arena.nodesSetComments] at found
    exact holds c i m found

theorem NodeLaw.reachable (law : NodeLaw P) {w : World} (reachable : w.Reachable p) {n : Nat}
    (here : w.session.arenas[n]? = some a) : a.Each (P a.dialect) :=
  reachable.induct (I := fun a => a.Each (P a.dialect)) law.new (fun _ change holds => law.change change holds) n a here

end NodeLaw

namespace FuncDecl

structure Lawful (f : FuncDecl) : Prop where
  forward : f.lifecycle = .forward → f.body = none
  split : f.lifecycle = .split → f.body.isSome
  special : f.special.isSome → f.body = none
  defined : f.defined = true → f.lifecycle = .split
  member : f.method.isSome ↔ f.kind ≠ .free
  ret : f.ret.isNone ↔ f.kind = .constructor ∨ f.kind = .destructor
  inits : f.inits ≠ [] → f.kind = .constructor

theorem Lawful.unmarked {f : FuncDecl} (lawful : f.Lawful) (split : f.lifecycle = .split) : f.special = none := by
  cases marked : f.special with
  | none => rfl
  | some mark =>
    have filled := lawful.split split
    simp [lawful.special (by simp [marked])] at filled

theorem Initial.lawful {f : FuncDecl} (initial : f.Initial) : f.Lawful where
  forward forward := by
    have body := initial.body
    simp_all
  split := initial.body.mpr
  special marked := by simp [initial.special] at marked
  defined defined := by simp [initial.defined] at defined
  member := initial.member
  ret := initial.ret
  inits some := absurd initial.inits some

structure Continues (old new : FuncDecl) : Prop where
  lifecycle : new.lifecycle = old.lifecycle
  kind : new.kind = old.kind
  name : new.name = old.name
  ret : new.ret = old.ret
  params : new.params = old.params
  variadic : new.variadic = old.variadic
  body : ∀ scope, old.body = some scope → new.body = some scope
  defined : old.defined = true → new.defined = true

theorem Continues.refl (f : FuncDecl) : f.Continues f :=
  ⟨rfl, rfl, rfl, rfl, rfl, rfl, fun _ => id, id⟩

theorem Continues.trans {f g h : FuncDecl} (first : f.Continues g) (second : g.Continues h) : f.Continues h where
  lifecycle := second.lifecycle.trans first.lifecycle
  kind := second.kind.trans first.kind
  name := second.name.trans first.name
  ret := second.ret.trans first.ret
  params := second.params.trans first.params
  variadic := second.variadic.trans first.variadic
  body scope was := second.body scope (first.body scope was)
  defined was := second.defined (first.defined was)

end FuncDecl

theorem DeclNode.Grows.function {f : FuncDecl} {n : DeclNode} (grows : DeclNode.Grows (.function f) n) :
    ∃ g, n = .function g ∧ f.Continues g ∧ (f.Lawful → g.Lawful) := by
  have kept := FuncDecl.Continues.refl f
  cases grows with
  | body data scope absent fillable plain =>
    refine ⟨_, rfl, { kept with body := by simp [absent] },
      fun lawful => { lawful with forward := ?_, split := ?_, special := ?_ }⟩
    · exact fun forward => absurd forward fillable
    · simp
    · intro marked
      rw [FuncDecl.special] at marked plain
      simp [plain] at marked
  | qualifiers data quals => exact ⟨_, rfl, { kept with }, fun lawful => { lawful with }⟩
  | methodQualifiers data m quals member bodyless =>
    refine ⟨_, rfl, { kept with }, fun lawful => { lawful with special := bodyless, member := ?_ }⟩
    have isMember := lawful.member
    simpa [member] using isMember
  | defined data split first =>
    exact ⟨_, rfl, { kept with defined := fun _ => rfl }, fun lawful => { lawful with defined := fun _ => split }⟩
  | init data i constructs => exact ⟨_, rfl, { kept with }, fun lawful => { lawful with inits := fun _ => constructs }⟩

def Node.Lawful : (c : Category) → Node c → Prop
  | .decl, .function f => f.Lawful
  | _, _ => True

theorem Node.lawful : NodeLaw fun _ => Node.Lawful where
  void _ := trivial
  born {_ c n} initial _ := by
    cases c with
    | decl =>
      cases n with
      | function f => exact FuncDecl.Initial.lawful initial
      | _ => trivial
    | _ => trivial
  shared _ _ _ := trivial
  grown {_ c old new} grows _ holds := by
    cases c with
    | decl =>
      cases old with
      | function f =>
        obtain ⟨g, rfl, _, keeps⟩ := DeclNode.Grows.function grows
        exact keeps holds
      | _ => cases grows <;> trivial
    | _ => trivial

theorem World.Reachable.lawful {p : Policy} {w : World} (reachable : w.Reachable p) {n : Nat} {a : Arena}
    (here : w.session.arenas[n]? = some a) {i : Nat} {f : FuncDecl} (found : a.decls[i]? = some (.function f)) :
    f.Lawful :=
  Node.lawful.reachable reachable here .decl i (.function f) found

theorem World.Run.functionContinues {p : Policy} {w v : World} (sound : w.Sound p) (run : Run p w v) {n : Nat}
    {a : Arena} (here : w.session.arenas[n]? = some a) {i : Nat} {f : FuncDecl}
    (found : a.decls[i]? = some (.function f)) :
    ∃ b g, v.session.arenas[n]? = some b ∧ b.decls[i]? = some (.function g) ∧ f.Continues g := by
  have later := Run.induct (I := fun b => ∃ g, b.decls[i]? = some (.function g) ∧ f.Continues g) ?step sound run here
    ⟨f, found, .refl f⟩
  case step =>
    rintro given b c - change ⟨g, now, continues⟩
    obtain ⟨m, next, evolved⟩ := change.keeps (c := .decl) now
    rcases evolved with rfl | grows
    · exact ⟨g, next, continues⟩
    · obtain ⟨h, rfl, further, _⟩ := DeclNode.Grows.function grows
      exact ⟨h, next, continues.trans further⟩
  obtain ⟨b, there, g, now, continues⟩ := later
  exact ⟨b, g, there, now, continues⟩

end CSource
