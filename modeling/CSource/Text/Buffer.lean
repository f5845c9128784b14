/-!
An append-only text buffer. Each operation adds at the end; `text` is all that was added, in order.
-/

namespace CSource.Text

structure Buffer where
  text : String
  deriving DecidableEq, Repr

namespace Buffer

def empty : Buffer := ⟨""⟩

def append (b : Buffer) (s : String) : Buffer := ⟨b.text ++ s⟩

def appendChar (b : Buffer) (c : Char) : Buffer := ⟨b.text.push c⟩

def appendLine (b : Buffer) : Buffer := b.appendChar '\n'

def appendCopies (b : Buffer) (s : String) : Nat → Buffer
  | 0 => b
  | count + 1 => (b.append s).appendCopies s count

def appendBlockComment (b : Buffer) (s : String) : Buffer :=
  b.append ("/* " ++ s ++ " */")

def appendLineComment (b : Buffer) (s : String) : Buffer :=
  b.append ("// " ++ s ++ "\n")

def appendJoined (b : Buffer) (items : List String) (separator : String) : Buffer :=
  b.append (separator.intercalate items)

def size (b : Buffer) : Nat := b.text.utf8ByteSize

def isEmpty (b : Buffer) : Bool := b.size == 0

end Buffer

end CSource.Text
