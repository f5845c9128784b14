/-!
Paths. A path is the list of its pieces between slashes. A piece without characters names nothing, and neither does a
dot, except for a dot that opens the path; every other piece is a component. A path that opens with a slash is absolute.
-/

namespace CSource.Files

/-- Puts a character in front of the first piece; a slash opens a piece of its own. -/
def prependChar (c : Char) : List (List Char) → List (List Char)
  | [] => [[c]]
  | piece :: pieces => if c = '/' then [] :: piece :: pieces else (c :: piece) :: pieces

def splitSlashes (cs : List Char) : List (List Char) := cs.foldr prependChar [[]]

structure Path where
  pieces : List String
  deriving DecidableEq, Repr

namespace Path

def ofString (s : String) : Path := ⟨(splitSlashes s.toList).map String.ofList⟩

def text (p : Path) : String := "/".intercalate p.pieces

def isEmpty (p : Path) : Bool := p.pieces == [] || p.pieces == [""]

def root : Path := ⟨["", ""]⟩

def isAbsolute (p : Path) : Bool :=
  match p.pieces with
  | "" :: _ :: _ => true
  | _ => false

def sizeLimit : Nat := 4095

def nameLimit : Nat := 255

/-- The path can be looked up at all: it is short enough, and no null character cuts it off. -/
def isUsable (p : Path) : Bool :=
  p.text.utf8ByteSize ≤ sizeLimit && p.pieces.all fun piece => !piece.toList.contains '\x00'

def dropIdle : List String → List String
  | [] => []
  | [opening] => if opening = "" then [] else [opening]
  | piece :: next :: rest =>
    if piece = "" ∨ piece = "." then dropIdle (next :: rest) else piece :: next :: rest

/-- What precedes the last component, as written; empty where nothing does. -/
def parent (p : Path) : Path :=
  match dropIdle p.pieces.reverse with
  | [] => ⟨[]⟩
  | _ :: before =>
    match dropIdle before with
    | [] => if p.isAbsolute then root else ⟨[]⟩
    | above => ⟨above.reverse⟩

end Path

end CSource.Files
