import CSource.Build.Basic
import CSource.Handle.Place
import CSource.Handle.Typed

/-!
Calls that make types. Raw, pointer, reference, array and named types are made once per key: a repeated request
gives the handle of the first. All other types are new on every request.
-/

namespace CSource

inductive PrimitiveType where
  | bool
  | char
  | signedChar
  | unsignedChar
  | short
  | unsignedShort
  | int
  | unsignedInt
  | long
  | unsignedLong
  | longLong
  | unsignedLongLong
  | float
  | double
  | longDouble
  | size
  deriving DecidableEq, Repr

def PrimitiveType.spelling : PrimitiveType → String
  | bool => "bool"
  | char => "char"
  | signedChar => "signed char"
  | unsignedChar => "unsigned char"
  | short => "short"
  | unsignedShort => "unsigned short"
  | int => "int"
  | unsignedInt => "unsigned int"
  | long => "long"
  | unsignedLong => "unsigned long"
  | longLong => "long long"
  | unsignedLongLong => "unsigned long long"
  | float => "float"
  | double => "double"
  | longDouble => "long double"
  | size => "size_t"

/-- A table of types made once per key, and the node made for a key. -/
structure Interning (κ : Type) where
  entries : InternTables → List (κ × TypeRef)
  record : κ → TypeRef → InternTables → InternTables
  node : κ → TypeNode

namespace Interning

def raw : Interning String where
  entries := (·.raw)
  record key ty t := { t with raw := t.raw ++ [(key, ty)] }
  node := .raw

def pointer : Interning TypeRef where
  entries := (·.pointer)
  record key ty t := { t with pointer := t.pointer ++ [(key, ty)] }
  node := .pointer

def reference : Interning TypeRef where
  entries := (·.reference)
  record key ty t := { t with reference := t.reference ++ [(key, ty)] }
  node := .reference

def array : Interning (TypeRef × List ExprRef) where
  entries := (·.array)
  record key ty t := { t with array := t.array ++ [(key, ty)] }
  node key := .array key.1 key.2

def named : Interning DeclRef where
  entries := (·.named)
  record key ty t := { t with named := t.named ++ [(key, ty)] }
  node := .named

end Interning

namespace Build

def intern {κ : Type} [BEq κ] (table : Interning κ) (key : κ) : Build TypeRef := do
  match (table.entries (← get).interned).lookup key with
  | some ty => pure ty
  | none =>
    let ty ← alloc .type (table.node key)
    modify fun a => { a with interned := table.record key ty a.interned }
    pure ty

def rawType (spelling : String) : Build TypeRef := intern .raw spelling

def primitiveType (p : PrimitiveType) : Build TypeRef := rawType p.spelling

def autoType : Build TypeRef := do
  require .autoType
  rawType "auto"

def pointerType (pointee : TypeRef) : Build TypeRef := do
  own pointee
  intern .pointer pointee

def referenceType (referee : TypeRef) : Build TypeRef := do
  require .referenceType
  own referee
  intern .reference referee

def arrayType (element : TypeRef) (sizes : List ExprRef) : Build TypeRef := do
  own element
  ownEach sizes
  intern .array (element, sizes)

def functionType (ret : TypeRef) (params : List TypeRef) (variadic : Bool) : Build TypeRef := do
  own ret
  ownEach params
  alloc .type (.function ret params variadic)

def namedType (decl : DeclRef) : Build TypeRef := do
  own decl
  intern .named decl

def instantiationType (template : DeclRef) (args : List TemplateArg) : Build TypeRef := do
  require .templateInstantiation
  own template
  ownArgs args
  alloc .type (.instantiation template args)

def packType (element : TypeRef) : Build TypeRef := do
  require .parameterPack
  own element
  alloc .type (.pack element)

def typeParameter (keyword : ParameterKeyword) : Build TypeRef := do
  require .templateTypeParameter
  alloc .type (.parameter keyword)

def newAggregate (kind : AggregateKind) (name : QualName) : Build ClassRef := do
  requireIf (kind == .classKind) .classAggregate
  let ty ← alloc .type (.aggregate ⟨kind, name, false, [], []⟩)
  let decl ← alloc .decl (.aggregate ty false)
  pure ⟨ty, decl⟩

def newEnum (name : QualName) (key : Option EnumKey) : Build EnumRef := do
  requireIf key.isSome .scopedEnum
  let ty ← alloc .type (.enumeration ⟨name, key, none, []⟩)
  let decl ← alloc .decl (.enumeration ty false)
  pure ⟨ty, decl⟩

def modifyAggregate (ty : TypeRef) (f : Aggregate → Aggregate) : Build Unit := do
  let data ← read (·.aggregateAt ty)
  update ty (.aggregate (f data))

def modifyEnum (ty : TypeRef) (f : Enumeration → Enumeration) : Build Unit := do
  match ← read (·.node ty) with
  | .enumeration data => update ty (.enumeration (f data))
  | other => throw (.unexpected .enumType other.kindName)

def members (c : ClassRef) : Build Place := do
  match (← read (·.aggregateAt c.ty)).defaultScope with
  | some scope => pure ⟨.member, scope⟩
  | none =>
    let scope ← newScope (.members c.ty false)
    modifyAggregate c.ty fun d => { d with regions := d.regions ++ [⟨none, scope⟩] }
    pure ⟨.member, scope⟩

def addRegion (c : ClassRef) (access : Access) : Build Place := do
  require .accessSpecifier
  let scope ← newScope (.members c.ty true)
  modifyAggregate c.ty fun d => { d with regions := d.regions ++ [⟨some access, scope⟩] }
  pure ⟨.member, scope⟩

def addBase (c : ClassRef) (access : Access) (base : TypeRef) : Build Unit := do
  require .baseClass
  own base
  modifyAggregate c.ty fun d => { d with bases := d.bases ++ [⟨access, base⟩] }

def setFinal (c : ClassRef) (isFinal : Bool) : Build Unit := do
  require .finalClass
  modifyAggregate c.ty fun d => { d with isFinal := isFinal }

def forwardAggregate (c : ClassRef) : Build DeclRef := alloc .decl (.aggregate c.ty true)

def addEnumMember (e : EnumRef) (name : String) (value : Option ExprRef) : Build Unit := do
  ownOption value
  modifyEnum e.ty fun d => { d with members := d.members ++ [⟨name, value⟩] }

def setUnderlying (e : EnumRef) (ty : TypeRef) : Build Unit := do
  own ty
  modifyEnum e.ty fun d => { d with underlying := some ty }

def setEnumKey (e : EnumRef) (key : EnumKey) : Build Unit := do
  require .scopedEnum
  modifyEnum e.ty fun d => { d with key := some key }

def forwardEnum (e : EnumRef) : Build DeclRef := alloc .decl (.enumeration e.ty true)

end Build

end CSource
