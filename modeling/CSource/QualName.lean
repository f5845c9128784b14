/-!
Qualified names: a list of segments, written with `::` between neighbours. A segment is any text, the empty one
included, and is never split.
-/

namespace CSource

structure QualName where
  segments : List String
  deriving DecidableEq, Repr

namespace QualName

def ofString (s : String) : QualName := ⟨[s]⟩

def join (n : QualName) (segment : String) : QualName := ⟨n.segments ++ [segment]⟩

def text (n : QualName) : String := "::".intercalate n.segments

def last (n : QualName) : String := n.segments.getLast?.getD ""

def isQualified (n : QualName) : Bool := 1 < n.segments.length

def isBlank (n : QualName) : Bool := n.segments.all (· == "")

end QualName

end CSource
