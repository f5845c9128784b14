import CSource.Handle
import CSource.QualName

/-!
Declaration nodes. A function keeps the way it was declared (`Lifecycle`) for good; its body, qualifiers, member
initializers and the mark that it was defined come later.
-/

namespace CSource

structure VarQualifiers where
  isConst : Bool
  isExternal : Bool
  isStatic : Bool
  isVolatile : Bool
  isRestrict : Bool
  isInline : Bool
  deriving DecidableEq, Repr

def VarQualifiers.none : VarQualifiers := ⟨false, false, false, false, false, false⟩

structure FuncQualifiers where
  isExternal : Bool
  isStatic : Bool
  isConstexpr : Bool
  isInline : Bool
  deriving DecidableEq, Repr

def FuncQualifiers.none : FuncQualifiers := ⟨false, false, false, false⟩

inductive MethodSpecial where
  | abstract
  | default
  | delete
  deriving DecidableEq, Repr

namespace MethodSpecial

def suffix : MethodSpecial → String
  | abstract => "=0;"
  | default => "=default;"
  | delete => "=delete;"

def description : MethodSpecial → String
  | abstract => "abstract"
  | default => "defaulted"
  | delete => "deleted"

end MethodSpecial

structure MethodQualifiers where
  isVirtual : Bool
  isExplicit : Bool
  isConst : Bool
  isOverride : Bool
  isFinal : Bool
  special : Option MethodSpecial
  deriving DecidableEq, Repr

def MethodQualifiers.none : MethodQualifiers := ⟨false, false, false, false, false, Option.none⟩

/-- How a function is declared: never defined, defined in place, or declared and defined in two places. -/
inductive Lifecycle where
  | forward
  | inPlace
  | split
  deriving DecidableEq, Repr

inductive FuncKind where
  | free
  | method
  | constructor
  | destructor
  deriving DecidableEq, Repr

structure Membership where
  parent : TypeRef
  quals : MethodQualifiers
  deriving DecidableEq, Repr

structure MemberInit where
  member : QualName
  args : List ExprRef
  deriving DecidableEq, Repr

structure FuncDecl where
  name : QualName
  ret : Option TypeRef
  params : List DeclRef
  variadic : Bool
  body : Option ScopeRef
  lifecycle : Lifecycle
  kind : FuncKind
  quals : FuncQualifiers
  method : Option Membership
  inits : List MemberInit
  defined : Bool
  deriving DecidableEq, Repr

def FuncDecl.special (f : FuncDecl) : Option MethodSpecial :=
  f.method.bind (·.quals.special)

inductive VarShape where
  | plain
  | array (sizes : List ExprRef)
  | construct (args : List ExprRef) (braced : Bool)
  deriving DecidableEq, Repr

structure VarDecl where
  name : QualName
  ty : TypeRef
  init : Option ExprRef
  shape : VarShape
  quals : VarQualifiers
  deriving DecidableEq, Repr

inductive DeclNode where
  | raw (text : String)
  | var (data : VarDecl)
  | function (data : FuncDecl)
  | splitForward (func : DeclRef)
  | aggregate (ty : TypeRef) (forward : Bool)
  | enumeration (ty : TypeRef) (forward : Bool)
  | typeDef (ty : TypeRef)
  | usingType (ty : TypeRef)
  | template (params : List DeclRef) (inner : DeclRef)
  deriving DecidableEq, Repr

def DeclNode.kindName : DeclNode → String
  | raw _ => "Raw"
  | var _ => "Var"
  | function _ => "Function"
  | splitForward _ => "SplitForward"
  | aggregate _ _ => "Aggregate"
  | enumeration _ _ => "Enum"
  | typeDef _ => "Typedef"
  | usingType _ => "Using"
  | template _ _ => "Template"

end CSource
