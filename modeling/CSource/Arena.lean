import CSource.Misuse
import CSource.Node

/-!
The arena of one source unit: a list of nodes per category, the comments attached to them, and the tables
that give equal types one handle. A handle is looked up only in the arena whose number it carries.
-/

namespace CSource

structure Comments where
  before : Option String
  after : Option String
  deriving DecidableEq, Repr

structure Stats where
  types : Nat
  decls : Nat
  exprs : Nat
  stmts : Nat
  directives : Nat
  scopes : Nat
  deriving DecidableEq, Repr

def Stats.total (s : Stats) : Nat :=
  s.types + s.decls + s.exprs + s.stmts + s.directives + s.scopes

/-- The types that are made once per key. Entries are in the order in which they were made. -/
structure InternTables where
  raw : List (String × TypeRef)
  pointer : List (TypeRef × TypeRef)
  reference : List (TypeRef × TypeRef)
  array : List ((TypeRef × List ExprRef) × TypeRef)
  named : List (DeclRef × TypeRef)
  deriving DecidableEq, Repr

def InternTables.empty : InternTables := ⟨[], [], [], [], []⟩

structure Arena where
  number : Nat
  dialect : Dialect
  types : Array TypeNode
  decls : Array DeclNode
  exprs : Array ExprNode
  stmts : Array StmtNode
  directives : Array DirectiveNode
  scopes : Array ScopeNode
  comments : List (NodeRef × Comments)
  interned : InternTables
  deriving DecidableEq, Repr

namespace Arena

def new (number : Nat) (dialect : Dialect) : Arena where
  number := number
  dialect := dialect
  types := #[.void]
  decls := #[]
  exprs := #[]
  stmts := #[]
  directives := #[]
  scopes := #[]
  comments := []
  interned := .empty

def void (a : Arena) : TypeRef := ⟨a.number, 0⟩

def stats (a : Arena) : Stats :=
  ⟨a.types.size, a.decls.size, a.exprs.size, a.stmts.size, a.directives.size, a.scopes.size⟩

def rawTypeNames (a : Arena) : List String := a.interned.raw.map (·.1)

def nodes (a : Arena) : (c : Category) → Array (Node c)
  | .type => a.types
  | .decl => a.decls
  | .expr => a.exprs
  | .stmt => a.stmts
  | .directive => a.directives
  | .scope => a.scopes

def setNodes (a : Arena) : (c : Category) → Array (Node c) → Arena
  | .type, ns => { a with types := ns }
  | .decl, ns => { a with decls := ns }
  | .expr, ns => { a with exprs := ns }
  | .stmt, ns => { a with stmts := ns }
  | .directive, ns => { a with directives := ns }
  | .scope, ns => { a with scopes := ns }

@[simp] theorem nodesSetNodes (a : Arena) (c : Category) (ns : Array (Node c)) :
    (a.setNodes c ns).nodes c = ns := by
  cases c <;> rfl

theorem nodesSetNodesOther (a : Arena) {c d : Category} (ne : c ≠ d) (ns : Array (Node c)) :
    (a.setNodes c ns).nodes d = a.nodes d := by
  cases c <;> cases d <;> first | exact absurd rfl ne | rfl

@[simp] theorem numberSetNodes (a : Arena) (c : Category) (ns : Array (Node c)) :
    (a.setNodes c ns).number = a.number := by
  cases c <;> rfl

@[simp] theorem dialectSetNodes (a : Arena) (c : Category) (ns : Array (Node c)) :
    (a.setNodes c ns).dialect = a.dialect := by
  cases c <;> rfl

@[simp] theorem internedSetNodes (a : Arena) (c : Category) (ns : Array (Node c)) :
    (a.setNodes c ns).interned = a.interned := by
  cases c <;> rfl

@[simp] theorem commentsSetNodes (a : Arena) (c : Category) (ns : Array (Node c)) :
    (a.setNodes c ns).comments = a.comments := by
  cases c <;> rfl

def owns (a : Arena) {c : Category} (h : Handle c) : Bool := h.arena == a.number

def node (a : Arena) {c : Category} (h : Handle c) : Except Misuse (Node c) :=
  if a.owns h then
    match (a.nodes c)[h.index]? with
    | some n => .ok n
    | none => .error (.emptyHandle c)
  else .error (.foreignHandle c)

def push (a : Arena) (c : Category) (n : Node c) : Arena :=
  a.setNodes c ((a.nodes c).push n)

def nextHandle (a : Arena) (c : Category) : Handle c := ⟨a.number, (a.nodes c).size⟩

def replace (a : Arena) {c : Category} (h : Handle c) (n : Node c) : Arena :=
  a.setNodes c ((a.nodes c).setIfInBounds h.index n)

def commentsOf (a : Arena) (r : NodeRef) : Option Comments := a.comments.lookup r

/-- Changes the entry of `key`, which is `fresh` and last in the list if there was none. -/
def upsert {α β : Type} [DecidableEq α] (key : α) (fresh : β) (f : β → β) : List (α × β) → List (α × β)
  | [] => [(key, f fresh)]
  | (k, v) :: rest => if k = key then (k, f v) :: rest else (k, v) :: upsert key fresh f rest

def setComments (a : Arena) (r : NodeRef) (f : Comments → Comments) : Arena :=
  { a with comments := upsert r ⟨none, none⟩ f a.comments }

end Arena

end CSource
