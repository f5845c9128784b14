import CSource.Render.Type

/-!
The pieces of a declaration. A declarator writes the declared name into its type: behind it, or inside it for
functions, pointers to functions and arrays.
-/

namespace CSource.Render

open Pieces

/-- A name behind a type, with a blank between them if there is a name. -/
def nameSuffix (name : String) : Pieces :=
  if name = "" then [] else [.code " ", .code name]

def plainDeclarator (ty : TypeRef) (name : String) : Pieces :=
  .child ty.ref :: nameSuffix name

/-- The declaration of `name` with a type. Only a pointer straight to a function encloses the name. -/
def declarator (a : Arena) (ty : TypeRef) (name : String) : Pieces :=
  ofExcept do
    match ← a.node ty with
    | .function ret ps variadic =>
      pure (.child ret.ref :: nameSuffix name ++ params ps variadic)
    | .pointer pointee =>
      match ← a.node pointee with
      | .function ret ps variadic =>
        pure (.child ret.ref :: .code "(*" :: .code name :: .code ")" :: params ps variadic)
      | _ => pure (plainDeclarator ty name)
    | .array element sizes => pure (plainDeclarator element name ++ arraySizes sizes)
    | _ => pure (plainDeclarator ty name)

def enclosed (braced : Bool) (args : List ExprRef) : Pieces :=
  if braced then inBraces (commaHandles args) else inParens (commaHandles args)

def varShape : VarShape → Pieces
  | .plain => []
  | .array sizes => arraySizes sizes
  | .construct args braced => enclosed braced args

def initializer : Option ExprRef → Pieces :=
  ofOption fun e => .code "=" :: ofHandle e

/-- The name as it stands in the declarator; a nameless variable has no qualifier there either. -/
def declaredName (data : VarDecl) : String :=
  if data.name.isBlank then ""
  else if data.quals.isRestrict then "restrict " ++ data.name.text
  else data.name.text

def var (a : Arena) (data : VarDecl) : Pieces :=
  flagged [(data.quals.isConst, "const "), (data.quals.isExternal, "extern "), (data.quals.isStatic, "static "),
      (data.quals.isVolatile, "volatile "), (data.quals.isInline, "inline ")] ++
    declarator a data.ty (declaredName data) ++ varShape data.shape ++ initializer data.init

/-- Where a signature stands: on its own, as the first half of a split function, or as its definition. -/
inductive SignatureStyle where
  | whole
  | forward
  | define
  deriving DecidableEq, Repr

def inAggregate (data : FuncDecl) (style : SignatureStyle) : Bool :=
  data.method.isSome && style != .define

def methodQualifiers (data : FuncDecl) : MethodQualifiers :=
  (data.method.map (·.quals)).getD .none

def signatureQualifiers (data : FuncDecl) (style : SignatureStyle) : Pieces :=
  let inside := inAggregate data style
  let free := data.method.isNone
  let m := methodQualifiers data
  flagged [(data.quals.isExternal && free, "extern "), (data.quals.isStatic && (free || inside), "static "),
    (data.quals.isConstexpr, "constexpr "), (data.quals.isInline, "inline "),
    (inside && m.isVirtual, "virtual "), (inside && m.isExplicit, "explicit ")]

def signatureName (a : Arena) (data : FuncDecl) (style : SignatureStyle) : Pieces :=
  match style, data.method with
  | .forward, _ => ofText data.name.last
  | .define, some m => ofName (a.tagName m.parent) ++ [.code "::", .code data.name.last]
  | _, _ => ofText data.name.text

def signatureTail (data : FuncDecl) (style : SignatureStyle) : Pieces :=
  let inside := inAggregate data style
  let m := methodQualifiers data
  separated " " ((flagged [(m.isConst, "const"), (inside && m.isOverride, "override"),
    (inside && m.isFinal, "final")]).map ([·]))

def signature (a : Arena) (data : FuncDecl) (style : SignatureStyle) : Pieces :=
  signatureQualifiers data style ++ ofOption (fun ret => .child ret.ref :: ofText " ") data.ret ++
    signatureName a data style ++ params data.params data.variadic ++ signatureTail data style

def memberInit (i : MemberInit) : Pieces :=
  .code i.member.text :: enclosed false i.args

def memberInits : List MemberInit → Pieces
  | [] => []
  | inits => .code ":" :: separated "," (inits.map memberInit)

def block (body : ScopeRef) : Pieces :=
  inBraces (ofHandle body)

/-- What follows the signature: the mark in place of a body, the body, or nothing. -/
def functionEnd (data : FuncDecl) : Pieces :=
  match data.special, data.body with
  | some special, _ => ofText special.suffix
  | none, none => ofText ";"
  | none, some body => memberInits data.inits ++ block body

/-- A split function is written as its definition; its first half is another node. -/
def styleOf : Lifecycle → SignatureStyle
  | .split => .define
  | .forward | .inPlace => .whole

def function (a : Arena) (data : FuncDecl) : Pieces :=
  signature a data (styleOf data.lifecycle) ++ functionEnd data

def synonymAt (a : Arena) (ty : TypeRef) : Except Misuse (QualName × TypeRef) := do
  match ← a.node ty with
  | .synonym name aliased => pure (name, aliased)
  | other => .error (.unexpected .synonymType other.kindName)

def decl (a : Arena) : DeclNode → Pieces
  | .raw text => ofText text
  | .var data => var a data
  | .function data => function a data
  | .splitForward func =>
    ofExcept do
      pure (signature a (← a.functionAt func) .forward ++ ofText ";")
  | .aggregate ty forward | .enumeration ty forward =>
    if forward then tagReference a ty else ofHandle ty
  | .typeDef ty =>
    ofExcept do
      let (name, aliased) ← synonymAt a ty
      pure (.code "typedef " :: declarator a aliased name.text)
  | .usingType ty =>
    ofExcept do
      let (name, aliased) ← synonymAt a ty
      pure (.code "using " :: .code name.text :: .code "=" :: ofHandle aliased)
  | .template ps inner =>
    .code "template<" :: commaHandles ps ++ .code "> " :: ofHandle inner

end CSource.Render
