import CSource.Arena.Naming
import CSource.Render.Piece

/-!
The pieces of a type. A tag is written in full where the type itself stands; a named type is written by name,
behind the tag keyword in C.
-/

namespace CSource.Render

open Pieces

def templateArgs (args : List TemplateArg) : Pieces :=
  separated "," (args.map fun arg => [.child arg.ref])

/-- One pair of brackets per size, or an empty pair where there is none. -/
def arraySizes : List ExprRef → Pieces
  | [] => ofText "[]"
  | sizes => sizes.flatMap fun size => inBrackets (ofHandle size)

def instantiation (a : Arena) (template : DeclRef) (args : List TemplateArg) : Pieces :=
  ofName (a.declName template) ++ .code "<" :: templateArgs args ++ ofText ">"

def taggedName (keyword : String) (name : Except Misuse QualName) : Pieces :=
  .code keyword :: .code " " :: ofName name

def namedType (a : Arena) (decl : DeclRef) : Pieces :=
  ofExcept do
    match ← a.node decl with
    | .aggregate ty _ =>
      let data ← a.aggregateAt ty
      pure (if a.dialect.isCxx then ofName (a.declName decl) else taggedName data.kind.keyword (a.tagName ty))
    | .enumeration ty _ =>
      pure (if a.dialect.isCxx then ofName (a.declName decl) else taggedName "enum" (a.tagName ty))
    | _ => pure (ofName (a.declName decl))

def aggregateHead (data : Aggregate) : Pieces :=
  taggedName data.kind.keyword (.ok data.name)

def enumHead (data : Enumeration) : Pieces :=
  .code "enum " :: ofOption (fun key => [.code key.keyword, .code " "]) data.key ++ ofText data.name.text ++
    ofOption (fun ty => .code ":" :: ofHandle ty) data.underlying

def baseList : List Base → Pieces
  | [] => []
  | bases => .code " : " ::
      separated "," (bases.map fun base => .code base.access.keyword :: .code " " :: ofHandle base.ty)

def region (r : Region) : Pieces :=
  ofOption (fun access => [.code access.keyword, .code ":\n"]) r.access ++ ofHandle r.scope

def aggregate (data : Aggregate) : Pieces :=
  aggregateHead data ++ flagged [(data.isFinal, " final")] ++ baseList data.bases ++
    inBraces (data.regions.flatMap region)

def enumMember (m : EnumMember) : Pieces :=
  .code m.name :: ofOption (fun value => .code "=" :: ofHandle value) m.value ++ ofText ","

def enumeration (data : Enumeration) : Pieces :=
  enumHead data ++ inBraces (data.members.flatMap enumMember)

def type (a : Arena) : TypeNode → Pieces
  | .raw spelling => ofText spelling
  | .void => ofText "void"
  | .pointer pointee => .child pointee.ref :: ofText "*"
  | .reference referee => .child referee.ref :: ofText "&"
  | .array element sizes => .child element.ref :: arraySizes sizes
  | .function ret ps variadic => .child ret.ref :: params ps variadic
  | .named decl => namedType a decl
  | .synonym name _ => ofText name.text
  | .aggregate data => aggregate data
  | .enumeration data => enumeration data
  | .instantiation template args => instantiation a template args
  | .pack element => .child element.ref :: ofText "..."
  | .parameter keyword => ofText keyword.keyword

def tagReference (a : Arena) (ty : TypeRef) : Pieces :=
  ofExcept do
    match ← a.node ty with
    | .aggregate data => pure (aggregateHead data)
    | .enumeration data => pure (enumHead data)
    | other => .error (.unexpected .tagType other.kindName)

end CSource.Render
