import CSource.Render.Decl

/-!
The pieces of an expression. Nothing is put in parentheses but by an explicit node.
-/

namespace CSource.Render

open Pieces

def designator (d : Designator) : Pieces :=
  .code "." :: .code d.field :: .code "=" :: ofHandle d.value

def association (assoc : Association) : Pieces :=
  .code "," :: (match assoc.ty with
    | some ty => ofHandle ty
    | none => ofText "default") ++ .code ":" :: ofHandle assoc.value

def lambda (data : LambdaExpr) : Pieces :=
  inBrackets (separated "," (data.captures.map (ofText ·.text))) ++ params data.params data.variadic ++
    ofOption (fun ret => .code "->" :: ofHandle ret) data.ret ++ block data.body

def new (data : NewExpr) : Pieces :=
  .code "new " :: ofOption (fun e => inParens (ofHandle e)) data.placement ++
    .child data.ty.ref :: ofOption (fun e => inBrackets (ofHandle e)) data.arraySize ++
    enclosed data.braced data.args

def fold (op : String) (pack : ExprRef) : Fold → Pieces
  | .unaryLeft => .code " ... " :: .code op :: ofHandle pack
  | .unaryRight => .child pack.ref :: .code op :: ofText " ... "
  | .binaryLeft start => .child start.ref :: .code op :: .code " ... " :: .code op :: ofHandle pack
  | .binaryRight start => .child pack.ref :: .code op :: .code " ... " :: .code op :: ofHandle start

def expr (a : Arena) : ExprNode → Pieces
  | .raw text => ofText text
  | .var decl => ofName (a.declName decl)
  | .typeName ty => ofHandle ty
  | .subscript base index => .child base.ref :: inBrackets (ofHandle index)
  | .call callee args => .child callee.ref :: enclosed false args
  | .unary op operand leading =>
    if leading then .code op :: ofHandle operand else .child operand.ref :: ofText op
  | .binary op lhs rhs => .child lhs.ref :: .code op :: ofHandle rhs
  | .ternary cond yes no => .child cond.ref :: .code "?" :: .child yes.ref :: .code ":" :: ofHandle no
  | .cast ty operand => inParens (ofHandle ty) ++ ofHandle operand
  | .paren inner => inParens (ofHandle inner)
  | .initList items => enclosed true items
  | .designated fields => inBraces (separated "," (fields.map designator))
  | .generic control assocs =>
    .code "_Generic" :: inParens (.child control.ref :: assocs.flatMap association)
  | .qualName name => ofText name.text
  | .lambda data => lambda data
  | .new data => new data
  | .delete operand array => .code (if array then "delete [] " else "delete ") :: ofHandle operand
  | .userLiteral operand suffix => .child operand.ref :: .code "_" :: ofText suffix
  | .instantiation template args => instantiation a template args
  | .packExpansion pack => .child pack.ref :: ofText "..."
  | .fold op pack kind => inParens (fold op pack kind)

end CSource.Render
