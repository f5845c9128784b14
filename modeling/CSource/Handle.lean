/-!
Handles. A handle names a node by the number of the arena that issued it and the node's position in that arena's
list of one category.
-/

namespace CSource

inductive Category where
  | type
  | decl
  | expr
  | stmt
  | directive
  | scope
  deriving DecidableEq, Repr

def Category.label : Category → String
  | type => "type"
  | decl => "declaration"
  | expr => "expression"
  | stmt => "statement"
  | directive => "directive"
  | scope => "scope"

structure Handle (c : Category) where
  arena : Nat
  index : Nat
  deriving DecidableEq, Repr

abbrev TypeRef := Handle .type
abbrev DeclRef := Handle .decl
abbrev ExprRef := Handle .expr
abbrev StmtRef := Handle .stmt
abbrev DirectiveRef := Handle .directive
abbrev ScopeRef := Handle .scope

structure NodeRef where
  category : Category
  arena : Nat
  index : Nat
  deriving DecidableEq, Repr

def Handle.ref {c : Category} (h : Handle c) : NodeRef := ⟨c, h.arena, h.index⟩

def NodeRef.handle (r : NodeRef) : Handle r.category := ⟨r.arena, r.index⟩

end CSource
