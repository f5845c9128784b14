import CSource.Misuse

/-!
Pieces: the text of one node as a list of code, of other nodes to write in their place, and of faults. A fault
stands where the writing would stop.
-/

namespace CSource

inductive Piece where
  | code (text : String)
  | child (ref : NodeRef)
  | fault (cause : Misuse)
  deriving DecidableEq, Repr

abbrev Pieces := List Piece

namespace Pieces

def ofText (s : String) : Pieces := [.code s]

def ofHandle {c : Category} (h : Handle c) : Pieces := [.child h.ref]

def ofExcept : Except Misuse Pieces → Pieces
  | .ok ps => ps
  | .error m => [.fault m]

def ofName : Except Misuse QualName → Pieces
  | .ok name => ofText name.text
  | .error m => [.fault m]

def inParens (ps : Pieces) : Pieces := .code "(" :: ps ++ [.code ")"]

def inBrackets (ps : Pieces) : Pieces := .code "[" :: ps ++ [.code "]"]

def inBraces (ps : Pieces) : Pieces := .code "\x7b" :: ps ++ [.code "\x7d"]

def separated (separator : String) : List Pieces → Pieces
  | [] => []
  | [item] => item
  | item :: next :: rest => item ++ .code separator :: separated separator (next :: rest)

def commaHandles {c : Category} (hs : List (Handle c)) : Pieces :=
  separated "," (hs.map ofHandle)

def ofOption {α : Type} (f : α → Pieces) : Option α → Pieces
  | some x => f x
  | none => []

def flagged (flags : List (Bool × String)) : Pieces :=
  (flags.filter (·.1)).map (.code ·.2)

/-- What stands behind the parameters of a variadic function. -/
def variadicMark (hasParams variadic : Bool) : Pieces :=
  if variadic then ofText (if hasParams then ",..." else "...") else []

def params {c : Category} (hs : List (Handle c)) (variadic : Bool) : Pieces :=
  inParens (commaHandles hs ++ variadicMark (!hs.isEmpty) variadic)

end Pieces

end CSource
