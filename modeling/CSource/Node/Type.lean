import CSource.Handle
import CSource.QualName

/-!
Type nodes. Structs, unions, classes and enums grow after they are made: regions, bases and members are appended.
-/

namespace CSource

inductive Access where
  | publicAccess
  | protectedAccess
  | privateAccess
  deriving DecidableEq, Repr

def Access.keyword : Access → String
  | publicAccess => "public"
  | protectedAccess => "protected"
  | privateAccess => "private"

inductive AggregateKind where
  | structKind
  | unionKind
  | classKind
  deriving DecidableEq, Repr

def AggregateKind.keyword : AggregateKind → String
  | structKind => "struct"
  | unionKind => "union"
  | classKind => "class"

inductive EnumKey where
  | classKey
  | structKey
  deriving DecidableEq, Repr

def EnumKey.keyword : EnumKey → String
  | classKey => "class"
  | structKey => "struct"

inductive ParameterKeyword where
  | typenameWord
  | classWord
  deriving DecidableEq, Repr

def ParameterKeyword.keyword : ParameterKeyword → String
  | typenameWord => "typename"
  | classWord => "class"

inductive TemplateArg where
  | type (ty : TypeRef)
  | expr (e : ExprRef)
  deriving DecidableEq, Repr

def TemplateArg.ref : TemplateArg → NodeRef
  | type ty => ty.ref
  | expr e => e.ref

structure Base where
  access : Access
  ty : TypeRef
  deriving DecidableEq, Repr

/-- A part of an aggregate's body. Only the region that `members` opens has no access label. -/
structure Region where
  access : Option Access
  scope : ScopeRef
  deriving DecidableEq, Repr

structure Aggregate where
  kind : AggregateKind
  name : QualName
  isFinal : Bool
  bases : List Base
  regions : List Region
  deriving DecidableEq, Repr

def Aggregate.defaultScope (d : Aggregate) : Option ScopeRef :=
  (d.regions.find? (·.access.isNone)).map (·.scope)

structure EnumMember where
  name : String
  value : Option ExprRef
  deriving DecidableEq, Repr

structure Enumeration where
  name : QualName
  key : Option EnumKey
  underlying : Option TypeRef
  members : List EnumMember
  deriving DecidableEq, Repr

inductive TypeNode where
  | raw (spelling : String)
  | void
  | pointer (pointee : TypeRef)
  | reference (referee : TypeRef)
  | array (element : TypeRef) (sizes : List ExprRef)
  | function (ret : TypeRef) (params : List TypeRef) (variadic : Bool)
  | named (decl : DeclRef)
  | synonym (name : QualName) (aliased : TypeRef)
  | aggregate (data : Aggregate)
  | enumeration (data : Enumeration)
  | instantiation (template : DeclRef) (args : List TemplateArg)
  | pack (element : TypeRef)
  | parameter (keyword : ParameterKeyword)
  deriving DecidableEq, Repr

def TypeNode.kindName : TypeNode → String
  | raw _ => "Raw"
  | void => "Void"
  | pointer _ => "Pointer"
  | reference _ => "Reference"
  | array _ _ => "Array"
  | function _ _ _ => "Function"
  | named _ => "Named"
  | synonym _ _ => "Alias"
  | aggregate _ => "Aggregate"
  | enumeration _ => "Enum"
  | instantiation _ _ => "Instantiation"
  | pack _ => "Pack"
  | parameter _ => "TypeParam"

end CSource
