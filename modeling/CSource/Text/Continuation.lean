/-!
Line continuation: a backslash at the end of a line joins it to the next one, so a text of several lines can be
the replacement of one preprocessor definition.
-/

namespace CSource.Text

def continueChar (c : Char) : List Char :=
  if c = '\n' then ['\\', '\n'] else [c]

def continueChars (cs : List Char) : List Char :=
  cs.flatMap continueChar

theorem continueCharsAppend (cs ds : List Char) :
    continueChars (cs ++ ds) = continueChars cs ++ continueChars ds :=
  List.flatMap_append

theorem continueCharsFixed {cs : List Char} (single : '\n' ∉ cs) : continueChars cs = cs := by
  induction cs with
  | nil => rfl
  | cons c cs ih =>
    rw [List.mem_cons, not_or] at single
    rw [continueChars, List.flatMap_cons, ← continueChars, ih single.2, continueChar, if_neg (Ne.symm single.1)]
    rfl

def continueLines (s : String) : String :=
  String.ofList (continueChars s.toList)

theorem continueLinesFixed {s : String} (single : '\n' ∉ s.toList) : continueLines s = s := by
  rw [continueLines, continueCharsFixed single, String.ofList_toList]

theorem continueLinesAppend (s t : String) :
    continueLines (s ++ t) = continueLines s ++ continueLines t := by
  simp only [continueLines, String.toList_append, continueCharsAppend, String.ofList_append]

end CSource.Text
