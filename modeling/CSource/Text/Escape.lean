/-!
Character and string literals. A literal is closed by its quote, so the quote, the backslash and the four
control characters that have a letter of their own are written behind a backslash; all else stands for itself.
-/

namespace CSource.Text

def escapeChar (quote c : Char) : List Char :=
  if c = '\\' then ['\\', '\\']
  else if c = '\n' then ['\\', 'n']
  else if c = '\r' then ['\\', 'r']
  else if c = '\t' then ['\\', 't']
  else if c = '\x00' then ['\\', '0']
  else if c = quote then ['\\', c]
  else [c]

def escapeChars (quote : Char) (cs : List Char) : List Char :=
  cs.flatMap (escapeChar quote)

theorem escapeCharsCons (quote c : Char) (cs : List Char) :
    escapeChars quote (c :: cs) = escapeChar quote c ++ escapeChars quote cs :=
  List.flatMap_cons

theorem escapeCharsAppend (quote : Char) (cs ds : List Char) :
    escapeChars quote (cs ++ ds) = escapeChars quote cs ++ escapeChars quote ds :=
  List.flatMap_append

/-- The inside of a string literal that denotes `s`. -/
def escapeString (s : String) : String :=
  String.ofList (escapeChars '\"' s.toList)

/-- The character literal that denotes `c`, quotes included. -/
def quoteChar (c : Char) : String :=
  String.ofList ('\'' :: (escapeChar '\'' c ++ ['\'']))

end CSource.Text
