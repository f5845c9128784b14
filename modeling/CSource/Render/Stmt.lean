import CSource.Render.Decl

/-!
The pieces of a statement.
-/

namespace CSource.Render

open Pieces

/-- A condition in parentheses, behind its initializer if there is one. -/
def condition (init : Option DeclRef) (cond : ExprRef) : Pieces :=
  inParens (ofOption (fun d => .child d.ref :: ofText ";") init ++ ofHandle cond)

def elseIf (b : ElseIf) : Pieces :=
  .code "else if" :: condition b.init b.cond ++ block b.body

def ifElse (data : IfStmt) : Pieces :=
  .code (if data.isConstexpr then "if constexpr" else "if") :: condition data.init data.cond ++
    block data.body ++ data.elseIfs.flatMap elseIf ++
    ofOption (fun scope => .code "else" :: block scope) data.otherwise

def forHeader (init : Option StmtRef) (cond step : Option ExprRef) : Pieces :=
  inParens ((match init with
    | some s => ofHandle s
    | none => ofText ";") ++ ofOption ofHandle cond ++ .code ";" :: ofOption ofHandle step)

def jump (keyword : String) (value : Option ExprRef) : Pieces :=
  .code keyword :: ofOption (fun e => .code " " :: ofHandle e) value ++ ofText ";"

def caseLabel (data : CaseLabel) : Pieces :=
  (match data.value with
    | some value => .code "case " :: .child value.ref :: ofText ":"
    | none => ofText "default:") ++ .child data.body.ref :: flagged [(!data.fallthrough, "break;")]

def handler (h : Handler) : Pieces :=
  .code "catch" :: inParens (match h.decl with
    | some d => ofHandle d
    | none => ofText "...") ++ block h.body

def stmt : StmtNode → Pieces
  | .raw text => ofText text
  | .empty => ofText ";"
  | .decl d => .child d.ref :: ofText ";"
  | .expr e => .child e.ref :: ofText ";"
  | .ifElse data => ifElse data
  | .whileLoop cond body => .code "while" :: condition none cond ++ block body
  | .forLoop init cond step body => .code "for" :: forHeader init cond step ++ block body
  | .forRange d range body =>
    .code "for" :: inParens (.child d.ref :: .code ":" :: ofHandle range) ++ block body
  | .doWhile cond body => .code "do" :: block body ++ .code "while" :: condition none cond ++ ofText ";"
  | .block body => block body
  | .returnValue value => jump "return" value
  | .breakLoop => ofText "break;"
  | .continueLoop => ofText "continue;"
  | .label name inner => .code name :: .code ":" :: (match inner with
      | some s => ofHandle s
      | none => ofText ";")
  | .goto label => [.code "goto ", .code label, .code ";"]
  | .switch data =>
    .code "switch" :: condition data.init data.cond ++ inBraces (data.cases.flatMap ofHandle)
  | .caseLabel data => caseLabel data
  | .throwValue value => jump "throw" value
  | .tryCatch data => .code "try" :: block data.body ++ data.handlers.flatMap handler
  | .usingNamespace name => [.code "using namespace ", .code name.text, .code ";"]

end CSource.Render
