import CSource.Proofs.Account.Calls
import CSource.Session

/-!
Worlds: a session together with the handles that it has handed out. A client can use these handles and their parts,
on any arena and in any order, and goes on after a refused call. What a client may do beyond that is its policy.
-/

namespace CSource

structure Policy where
  /-- Scopes that no node owns may be made. -/
  looseScopes : Bool
  /-- Any scope may be used as a place of any kind. -/
  recast : Bool
  /-- Handles of other arenas may be given to a call. -/
  foreign : Bool
  deriving DecidableEq, Repr

/-- The shapes that a handle or a stored reference can be relied on for. -/
def Policy.trusts (p : Policy) : Shape → Bool
  | .role _ => true
  | _ => !p.looseScopes && !p.recast

structure World where
  session : Session
  held : List Issued

namespace World

def empty : World := ⟨.empty, []⟩

inductive Holds (p : Policy) (w : World) : Issued → Prop where
  | issued {i : Issued} (mem : i ∈ w.held) : Holds p w i
  | part {i j : Issued} (holder : Holds p w i) (mem : j ∈ i.parts) : Holds p w j
  | recast {scope : ScopeRef} (kind : PlaceKind) (allowed : p.recast = true)
      (holder : Holds p w (.node .scope scope)) : Holds p w (.place ⟨kind, scope⟩)

structure Allows (p : Policy) (w : World) (n : Nat) (call : Call) : Prop where
  held : ∀ i ∈ call.handles, w.Holds p i
  tight : p.looseScopes = false → call.isLoose = false
  own : p.foreign = false → ∀ s ∈ slotsOf call.handles, s.ref.arena = n

inductive Step (p : Policy) (w : World) : World → Prop where
  | newArena (d : Dialect) : Step p w ⟨(w.session.newArena d).2, w.held⟩
  | call {n : Nat} {call : Call} {result : Except Misuse Answer} {after : Session} (allowed : w.Allows p n call)
      (ran : w.session.step n call = some (result, after)) : Step p w ⟨after, w.held ++ issuedBy result⟩
  | ask {n : Nat} {q : Query} {result : Except Misuse Answer} (held : ∀ i ∈ q.handles, w.Holds p i)
      (ran : w.session.ask n q = some result) : Step p w ⟨w.session, w.held ++ issuedBy result⟩

def Run (p : Policy) : World → World → Prop := Relation.ReflTransGen (Step p)

def Reachable (p : Policy) : World → Prop := Run p empty

def grow (w : World) (d : Dialect) : World := ⟨(w.session.newArena d).2, w.held⟩

def act (w : World) (n : Nat) (call : Call) : World :=
  match w.session.step n call with
  | some (result, after) => ⟨after, w.held ++ issuedBy result⟩
  | none => w

theorem Reachable.start {p : Policy} : empty.Reachable p := Relation.ReflTransGen.refl

theorem Reachable.grow {p : Policy} {w : World} (reachable : w.Reachable p) (d : Dialect) :
    (w.grow d).Reachable p :=
  reachable.tail (.newArena d)

theorem Run.act {p : Policy} {u w : World} {n : Nat} {call : Call} (run : Run p u w) (allowed : w.Allows p n call) :
    Run p u (w.act n call) := by
  unfold World.act
  cases ran : w.session.step n call with
  | none => exact run
  | some done => exact run.tail (.call allowed ran)

theorem Reachable.act {p : Policy} {w : World} {n : Nat} {call : Call} (reachable : w.Reachable p)
    (allowed : w.Allows p n call) : (w.act n call).Reachable p :=
  Run.act reachable allowed

theorem actOk {w : World} {n : Nat} {call : Call} {a b : Arena} {answer : Answer}
    (here : w.session.arenas[n]? = some a) (ran : call.perform.run a = .ok answer b) :
    (w.act n call).session.arenas[n]? = some b := by
  have inside := (Array.getElem?_eq_some_iff.mp here).1
  unfold act Session.step Session.run
  rw [here]
  simp [ran, inside]

theorem allowsHeld {p : Policy} {w : World} {n : Nat} {call : Call}
    (held : ∀ i ∈ call.handles, i ∈ w.held ∨ ∃ j ∈ w.held, i ∈ j.parts) (tight : call.isLoose = false)
    (own : p.foreign = true ∨ ∀ s ∈ slotsOf call.handles, s.ref.arena = n) : w.Allows p n call := by
  refine ⟨fun i mem => ?_, fun _ => tight, fun closed => own.resolve_left (by simp [closed])⟩
  rcases held i mem with issued | ⟨j, issued, inside⟩
  · exact .issued issued
  · exact .part (.issued issued) inside

end World

def Arena.Keeps (p : Policy) (a : Arena) (s : Slot) : Prop :=
  ∃ n, (a.nodes s.ref.category)[s.ref.index]? = some n ∧
    (p.trusts s.shape = true → s.shape.accepts _ n = true) ∧
    (p.looseScopes = false → ∀ q, Node.parent? _ n = some q → q.arena = a.number)

def Session.Keeps (p : Policy) (σ : Session) (s : Slot) : Prop :=
  ∃ a, σ.arenas[s.ref.arena]? = some a ∧ a.Keeps p s

/-- Every handle that a client can use and every stored reference names a node. -/
structure World.Sound (p : Policy) (w : World) : Prop where
  numbered : ∀ (n : Nat) (a : Arena), w.session.arenas[n]? = some a → a.number = n
  void : ∀ (n : Nat) (a : Arena), w.session.arenas[n]? = some a → a.Has a.void.plain
  stored : ∀ (n : Nat) (a : Arena), w.session.arenas[n]? = some a → ∀ s, a.Stores s →
    w.session.Keeps p s ∧ (p.foreign = false → s.Own a)
  held : ∀ i ∈ w.held, i.Coherent ∧ ∀ s ∈ i.slots, w.session.Keeps p s

variable {p : Policy} {given : Slot → Prop} {a b : Arena} {σ : Session}

theorem Arena.Has.keeps {s : Slot} (has : a.Has s) : a.Keeps p s := by
  obtain ⟨_, n, found, accepted, parent⟩ := has
  exact ⟨n, found, fun _ => accepted, fun _ => parent⟩

theorem Arena.Keeps.plain {r : NodeRef} {shape : Shape} (keeps : a.Keeps p ⟨r, shape⟩) : a.Keeps p ⟨r, .any⟩ := by
  obtain ⟨n, found, _, parent⟩ := keeps
  exact ⟨n, found, fun _ => Shape.anyAccepts n, parent⟩

theorem Arena.Keeps.untrusted {r : NodeRef} {shape other : Shape} (keeps : a.Keeps p ⟨r, shape⟩)
    (loose : p.trusts other = false) : a.Keeps p ⟨r, other⟩ := by
  obtain ⟨n, found, _, parent⟩ := keeps
  refine ⟨n, found, fun trusted => ?_, parent⟩
  rw [loose] at trusted
  contradiction

theorem Change.keepsPromise (h : Change given a b) {s : Slot} (keeps : a.Keeps p s) : b.Keeps p s := by
  obtain ⟨n, found, accepted, parent⟩ := keeps
  obtain ⟨m, now, evolved⟩ := h.keeps found
  refine ⟨m, now, ?_, ?_⟩
  · rw [Node.evolvedAccepts evolved]
    exact accepted
  · rw [Node.evolvedParent evolved, h.number]
    exact parent

theorem Changes.keepsPromise (h : Changes given a b) {s : Slot} (keeps : a.Keeps p s) : b.Keeps p s := by
  induction h with
  | refl => exact keeps
  | tail before step ih => exact step.keepsPromise ih

namespace Session.Keeps

theorem plain {r : NodeRef} {shape : Shape} (keeps : σ.Keeps p ⟨r, shape⟩) : σ.Keeps p ⟨r, .any⟩ := by
  obtain ⟨a, found, keeps⟩ := keeps
  exact ⟨a, found, keeps.plain⟩

theorem untrusted {r : NodeRef} {shape other : Shape} (keeps : σ.Keeps p ⟨r, shape⟩)
    (loose : p.trusts other = false) : σ.Keeps p ⟨r, other⟩ := by
  obtain ⟨a, found, keeps⟩ := keeps
  exact ⟨a, found, keeps.untrusted loose⟩

end Session.Keeps

end CSource
