import CSource.Session.Perform
import CSource.Session.Query
import CSource.SourceUnit

/-!
A session: the arenas made so far, each numbered by its position. Every call goes to one arena and changes no
other, whether it succeeds or is refused.

Scopes are filled through views. A view borrows an arena and names a place, which is one of that arena's own when the
view is made. The arena that a view borrows can be exchanged afterwards, and no later call checks the two against each
other before it puts its entry; so a call that fills a place can go to any arena.
-/

namespace CSource

structure Session where
  arenas : Array Arena
  deriving DecidableEq, Repr

/-- What a scope is filled through: the number of the arena that is borrowed, and a place. -/
structure View where
  arena : Nat
  place : Place
  deriving DecidableEq, Repr

def View.exchange (v : View) (n : Nat) : View := { v with arena := n }

namespace Session

def empty : Session := ⟨#[]⟩

def newArena (s : Session) (dialect : Dialect) : Nat × Session :=
  (s.arenas.size, ⟨s.arenas.push (Arena.new s.arenas.size dialect)⟩)

/-- Runs a call on arena `n`, of which there is none if the result is none. -/
def run {α : Type} (s : Session) (n : Nat) (act : Build α) : Option (Except Misuse α × Session) :=
  s.arenas[n]?.map fun a =>
    match act.run a with
    | .ok x a => (.ok x, ⟨s.arenas.setIfInBounds n a⟩)
    | .error m a => (.error m, ⟨s.arenas.setIfInBounds n a⟩)

def step (s : Session) (n : Nat) (call : Call) : Option (Except Misuse Answer × Session) :=
  s.run n call.perform

/-- A view of a place in arena `n`, which refuses a scope of another arena. -/
def view (s : Session) (n : Nat) (p : Place) : Option (Except Misuse View) :=
  s.arenas[n]?.map fun a => (⟨n, ·⟩) <$> a.openPlace p

def ask (s : Session) (n : Nat) (q : Query) : Option (Except Misuse Answer) :=
  s.arenas[n]?.map (·.answer q)

end Session

end CSource
