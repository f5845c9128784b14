import CSource.Render.Decl

/-!
The pieces of a directive. A preprocessor line has a newline before and behind it, so that it stands alone
wherever it is put.
-/

namespace CSource.Render

open Pieces

def line (keyword rest : String) : Pieces :=
  ofText ("\n#" ++ keyword ++ (if rest = "" then "" else " " ++ rest) ++ "\n")

def conditionHead : Condition → Pieces
  | .holds cond => .code "\n#if " :: .child cond.ref :: ofText "\n"
  | .isDefined name => [.code "\n#ifdef ", .code name, .code "\n"]
  | .isUndefined name => [.code "\n#ifndef ", .code name, .code "\n"]

def elif (e : Elif) : Pieces :=
  .code "\n#elif " :: .child e.cond.ref :: .code "\n" :: ofHandle e.body

def conditional (data : Conditional) : Pieces :=
  conditionHead data.head ++ .child data.body.ref :: data.elifs.flatMap elif ++
    ofOption (fun scope => .code "\n#else\n" :: ofHandle scope) data.otherwise ++ ofText "\n#endif\n"

def directive : DirectiveNode → Pieces
  | .raw text => ofText text
  | .includeFile path system =>
    line "include" (if system then "<" ++ path ++ ">" else "\"" ++ path ++ "\"")
  | .define name none => line "define" name
  | .define name (some value) => line "define" (name ++ " " ++ value)
  | .defineFunction name ps body =>
    .code "\n#define " :: .code name :: inParens (separated "," (ps.map ofText)) ++
      .code " " :: .child body.ref :: ofText "\n"
  | .undef name => line "undef" name
  | .pragma text => line "pragma" text
  | .conditional data => conditional data
  | .namespaceBlock name body => .code "namespace " :: .code name.text :: block body
  | .usingNamespace name => [.code "using namespace ", .code name.text, .code ";"]
  | .usingName name => [.code "using ", .code name.text, .code ";"]

end CSource.Render
