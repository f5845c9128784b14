import CSource.Render.Directive
import CSource.Render.Expr
import CSource.Render.Stmt
import CSource.Text.Continuation

/-!
The text of a node: its pieces with every child replaced by the child's text, its comments around it, and the
lines of a macro body continued. A node of `n` nodes is never deeper than `n` unless it is part of itself, so the
number of nodes in the arena bounds the depth.
-/

namespace CSource

inductive Side where
  | before
  | after
  deriving DecidableEq, Repr

/-- A stretch of rendered text: code, or a comment with the node it is attached to. -/
inductive Segment where
  | code (text : String)
  | comment (owner : NodeRef) (side : Side) (text : String)
  deriving DecidableEq, Repr

namespace Segment

def text : Segment → String
  | code s => s
  | comment _ _ s => s

def continued : Segment → Segment
  | code s => .code (Text.continueLines s)
  | comment owner side s => .comment owner side (Text.continueLines s)

end Segment

namespace Render

def scope (n : ScopeNode) : Pieces :=
  n.entries.flatMap fun e => .child e.ref :: (if n.kind.endsLines then [.code "\n"] else [])

def node (a : Arena) : (c : Category) → Node c → Pieces
  | .type, n => type a n
  | .decl, n => decl a n
  | .expr, n => expr a n
  | .stmt, n => stmt n
  | .directive, n => directive n
  | .scope, n => scope n

def pieces (a : Arena) (r : NodeRef) : Pieces :=
  match a.node r.handle with
  | .ok n => node a r.category n
  | .error m => [.fault m]

def continuesLines (a : Arena) (r : NodeRef) : Bool :=
  match r with
  | ⟨.scope, arena, index⟩ =>
    match a.node (⟨arena, index⟩ : ScopeRef) with
    | .ok n => n.kind.continuesLines
    | .error _ => false
  | _ => false

def blockComment (owner : NodeRef) (side : Side) : Option String → List Segment
  | some text => [.comment owner side ("/* " ++ text ++ " */")]
  | none => []

def annotate (a : Arena) (r : NodeRef) (body : List Segment) : List Segment :=
  match a.commentsOf r with
  | some c => blockComment r .before c.before ++ body ++ blockComment r .after c.after
  | none => body

/-- Replaces the children of a list of pieces by their segments. The first fault stops the writing. -/
def assemble (child : NodeRef → Except Misuse (List Segment)) : Pieces → Except Misuse (List Segment)
  | [] => .ok []
  | .code s :: rest => do
    let tail ← assemble child rest
    pure (.code s :: tail)
  | .child r :: rest => do
    let head ← child r
    let tail ← assemble child rest
    pure (head ++ tail)
  | .fault m :: _ => .error m

/-- The segments of a node that is at most `depth` nodes deep. -/
def segmentsWithin (a : Arena) : Nat → NodeRef → Except Misuse (List Segment)
  | 0, _ => .error .endless
  | depth + 1, r => do
    let body ← assemble (segmentsWithin a depth) (pieces a r)
    pure (annotate a r (if continuesLines a r then body.map (·.continued) else body))

end Render

namespace Arena

/-- The deepest that a node of this arena can be, and a handle of another arena below it. -/
def depthBound (a : Arena) : Nat := a.stats.total + 1

def segments (a : Arena) (r : NodeRef) : Except Misuse (List Segment) :=
  Render.segmentsWithin a a.depthBound r

def render (a : Arena) (r : NodeRef) : Except Misuse String := do
  pure (String.join ((← a.segments r).map (·.text)))

end Arena

end CSource
