import CSource.Handle
import CSource.Node.Scope

/-!
Typed handles: a handle together with the shape of the node that it names, so that an operation on one shape
cannot be called on another.
-/

namespace CSource

inductive Role where
  | function
  | lambda
  | generic
  | ifElse
  | switch
  | caseLabel
  | loop
  | tryCatch
  | conditional (branch : BranchKind)
  | functionMacro
  | namespaceBlock
  deriving DecidableEq, Repr

@[reducible] def Role.category : Role → Category
  | function => .decl
  | lambda | generic => .expr
  | ifElse | switch | caseLabel | loop | tryCatch => .stmt
  | conditional _ | functionMacro | namespaceBlock => .directive

structure Typed (r : Role) where
  handle : Handle r.category
  deriving DecidableEq, Repr

abbrev FunctionRef := Typed .function

structure ClassRef where
  ty : TypeRef
  decl : DeclRef
  deriving DecidableEq, Repr

structure EnumRef where
  ty : TypeRef
  decl : DeclRef
  deriving DecidableEq, Repr

end CSource
