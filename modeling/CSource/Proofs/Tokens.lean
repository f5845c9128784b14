import Mathlib.Data.List.Find
import CSource.Dialect
import CSource.Text.Escape

/-!
Tokens of a text. What comes next is told by the first character and the one behind it, and is read as far as it goes;
comments and blanks are no tokens. Main statement: brackets and commas end every token before them, so a text has the
same tokens in front of them as it has alone.
-/

namespace CSource.Tokens

def blanks : List Char := [' ', '\t', '\n', '\r', '\x0b', '\x0c']

/-- Characters of identifiers. All that is beyond the basic set is taken for a letter. -/
def isWord (c : Char) : Bool := c.isAlphanum || c == '_' || 128 ≤ c.toNat

def isQuote (c : Char) : Bool := c == '\'' || c == '\"'

def encodings : List String := ["L", "u", "U", "u8"]

def symbols : Dialect → List String
  | .c =>
    ["%:%:", "...", "<<=", ">>=", "->", "++", "--", "<<", ">>", "<=", ">=", "==", "!=", "&&", "||", "*=", "/=", "%=",
      "+=", "-=", "&=", "^=", "|=", "##", "<:", ":>", "<%", "%>", "%:", "[", "]", "(", ")", "\x7b", "\x7d", ".", "&", "*",
      "+", "-", "~", "!", "/", "%", "<", ">", "^", "|", "?", ":", ";", "=", ",", "#"]
  | .cxx =>
    ["%:%:", "...", "<<=", ">>=", "->*", "<=>", "->", "++", "--", "<<", ">>", "<=", ">=", "==", "!=", "&&", "||", "*=",
      "/=", "%=", "+=", "-=", "&=", "^=", "|=", "##", "<:", ":>", "<%", "%>", "%:", "::", ".*", "[", "]", "(", ")", "\x7b",
      "\x7d", ".", "&", "*", "+", "-", "~", "!", "/", "%", "<", ">", "^", "|", "?", ":", ";", "=", ",", "#"]

inductive Start where
  | blank
  | line
  | comment
  | number
  | quoted
  | word
  | symbol
  deriving DecidableEq, Repr

def start (c : Char) (after : Option Char) : Start :=
  if blanks.contains c then .blank
  else if c == '/' then
    if after == some '/' then .line else if after == some '*' then .comment else .symbol
  else if c == '.' then
    if after.any Char.isDigit then .number else .symbol
  else if c.isDigit then .number
  else if isQuote c then .quoted
  else if isWord c then .word
  else .symbol

def afterLine : List Char → Option (List Char)
  | [] => none
  | c :: cs => if c == '\n' then some cs else afterLine cs

def afterComment (star : Bool) : List Char → Option (List Char)
  | [] => none
  | c :: cs => if star && c == '/' then some cs else afterComment (c == '*') cs

def quotedSpan (quote : Char) (escaped : Bool) : List Char → Option (List Char × List Char)
  | [] => none
  | c :: cs =>
    if !escaped && c == quote then some ([c], cs)
    else if !escaped && c == '\n' then none
    else (quotedSpan quote (!escaped && c == '\\') cs).map (Prod.map (c :: ·) id)

def isExponent (c : Char) : Bool := ['e', 'E', 'p', 'P'].contains c

/-- A sign belongs to a number behind the mark of an exponent, and a quote between its digits. -/
def continuesNumber (before c : Char) (after : Option Char) : Bool :=
  isWord c || c == '.' || (isExponent before && (c == '+' || c == '-')) || (c == '\'' && after.any isWord)

def numberSpan (before : Char) : List Char → List Char × List Char
  | [] => ([], [])
  | c :: cs => if continuesNumber before c cs.head? then Prod.map (c :: ·) id (numberSpan c cs) else ([], c :: cs)

def nextQuoted (before : List Char) (quote : Char) (cs : List Char) : Option (List String × List Char) :=
  (quotedSpan quote false cs).map fun (inner, rest) => ([String.ofList (before ++ quote :: inner)], rest)

/-- A word, or the literal that it is the encoding of. -/
def nextWord (word : List Char) : List Char → Option (List String × List Char)
  | [] => some ([String.ofList word], [])
  | c :: cs =>
    if isQuote c && encodings.contains (String.ofList word) then nextQuoted word c cs
    else some ([String.ofList word], c :: cs)

def nextSymbol (d : Dialect) (cs : List Char) : Option (List String × List Char) :=
  ((symbols d).find? fun symbol => symbol.toList.isPrefixOf cs).map fun symbol => ([symbol], cs.drop symbol.toList.length)

/-- What a text begins with: one token, or none where it is a blank or a comment. -/
def next (d : Dialect) : List Char → Option (List String × List Char)
  | [] => none
  | c :: cs =>
    match start c cs.head? with
    | .blank => some ([], cs)
    | .line => (afterLine cs).map ([], ·)
    | .comment => (afterComment false cs.tail).map ([], ·)
    | .number => some (Prod.map (fun more => [String.ofList (c :: more)]) id (numberSpan c cs))
    | .quoted => nextQuoted [] c cs
    | .word => nextWord ((c :: cs).takeWhile isWord) ((c :: cs).dropWhile isWord)
    | .symbol => nextSymbol d (c :: cs)

/-- The tokens of a text up to a rest of it. -/
inductive Scans (d : Dialect) : List Char → List String → List Char → Prop where
  | done {cs : List Char} : Scans d cs [] cs
  | step {cs mid rest : List Char} {ts us : List String} (first : next d cs = some (ts, mid))
      (others : Scans d mid us rest) : Scans d cs (ts ++ us) rest

namespace Scans

variable {d : Dialect} {cs mid rest : List Char} {ts us : List String}

theorem one (first : next d cs = some (ts, rest)) : Scans d cs ts rest := by
  simpa using step first .done

theorem append (first : Scans d cs ts mid) (last : Scans d mid us rest) : Scans d cs (ts ++ us) rest := by
  induction first with
  | done => exact last
  | step first others ih => rw [List.append_assoc]; exact step first (ih last)

theorem strip (whole : Scans d cs ts []) (first : next d cs = some (us, mid)) : ∃ vs, ts = us ++ vs ∧ Scans d mid vs [] := by
  cases whole with
  | done => nomatch first
  | step again others =>
    rw [first] at again
    cases again
    exact ⟨_, rfl, others⟩

theorem unique (left : Scans d cs ts []) (right : Scans d cs us []) : ts = us := by
  generalize ended : ([] : List Char) = rest at left
  induction left generalizing us with
  | done =>
    subst ended
    cases right with
    | done => rfl
    | step first => nomatch first
  | step first others ih =>
    obtain ⟨vs, rfl, later⟩ := right.strip first
    rw [ih later ended]

end Scans

section Spans

variable {c : Char} {cs rest : List Char} {p : Char → Bool}

def StopsAt (p : Char → Bool) (rest : List Char) : Prop := ∀ c, rest.head? = some c → p c = false

theorem stopsCons (other : p c = false) : StopsAt p (c :: rest) := by
  rintro d ⟨⟩
  exact other

theorem spanStops (all : ∀ c ∈ cs, p c = true) (stops : StopsAt p rest) :
    (cs ++ rest).takeWhile p = cs ∧ (cs ++ rest).dropWhile p = rest := by
  have here : rest.takeWhile p = [] ∧ rest.dropWhile p = rest := by
    cases rest with
    | nil => exact ⟨rfl, rfl⟩
    | cons c rest => simp [stops c rfl]
  rw [List.takeWhile_append_of_pos all, List.dropWhile_append_of_pos all, here.1, here.2, List.append_nil]
  exact ⟨rfl, rfl⟩

end Spans

def separators : List Char := ['(', ')', '[', ']', ',']

section Before

variable {d : Dialect} {c stop : Char} {cs rest more : List Char} {ts : List String}

theorem startBefore (mem : stop ∈ separators) (c : Char) : start c (some stop) = start c none := by
  simp only [separators, List.mem_cons, List.not_mem_nil, or_false] at mem
  rcases mem with rfl | rfl | rfl | rfl | rfl <;> rfl

theorem headBefore (mem : stop ∈ separators) (c : Char) (cs : List Char) :
    start c (cs ++ stop :: more).head? = start c cs.head? := by
  cases cs with
  | nil => exact startBefore mem c
  | cons => rfl

theorem afterLineAppend (ended : afterLine cs = some rest) (more : List Char) :
    afterLine (cs ++ more) = some (rest ++ more) := by
  induction cs with
  | nil => nomatch ended
  | cons c cs ih =>
    rw [List.cons_append]
    rw [afterLine] at ended ⊢
    by_cases newline : c == '\n'
    · rw [if_pos newline] at ended ⊢
      cases ended
      rfl
    · rw [if_neg newline] at ended ⊢
      exact ih ended

theorem afterCommentAppend {star : Bool} (ended : afterComment star cs = some rest) (more : List Char) :
    afterComment star (cs ++ more) = some (rest ++ more) := by
  induction cs generalizing star with
  | nil => nomatch ended
  | cons c cs ih =>
    rw [List.cons_append]
    rw [afterComment] at ended ⊢
    by_cases slash : star && c == '/'
    · rw [if_pos slash] at ended ⊢
      cases ended
      rfl
    · rw [if_neg slash] at ended ⊢
      exact ih ended

theorem quotedSpanAppend {quote : Char} {escaped : Bool} {inner : List Char}
    (ended : quotedSpan quote escaped cs = some (inner, rest)) (more : List Char) :
    quotedSpan quote escaped (cs ++ more) = some (inner, rest ++ more) := by
  induction cs generalizing escaped inner with
  | nil => nomatch ended
  | cons c cs ih =>
    rw [List.cons_append]
    rw [quotedSpan] at ended ⊢
    by_cases closing : !escaped && c == quote
    · rw [if_pos closing] at ended ⊢
      cases ended
      rfl
    · rw [if_neg closing] at ended ⊢
      by_cases newline : !escaped && c == '\n'
      · rw [if_pos newline] at ended
        nomatch ended
      · rw [if_neg newline] at ended ⊢
        obtain ⟨⟨taken, left⟩, found, same⟩ := Option.map_eq_some_iff.mp ended
        cases same
        rw [ih found]
        rfl

theorem nextQuotedAppend {before : List Char} {quote : Char} (first : nextQuoted before quote cs = some (ts, rest))
    (more : List Char) : nextQuoted before quote (cs ++ more) = some (ts, rest ++ more) := by
  obtain ⟨⟨inner, left⟩, found, same⟩ := Option.map_eq_some_iff.mp first
  cases same
  rw [nextQuoted, quotedSpanAppend found]
  rfl

theorem stopPlain (mem : stop ∈ separators) :
    isWord stop = false ∧ isQuote stop = false ∧ stop ≠ '.' ∧ stop ≠ '+' ∧ stop ≠ '-' := by
  simp only [separators, List.mem_cons, List.not_mem_nil, or_false] at mem
  rcases mem with rfl | rfl | rfl | rfl | rfl <;> decide

theorem quoteOther (plain : isQuote c = false) : c ≠ '\'' := by
  rintro rfl
  contradiction

theorem continuesBefore (mem : stop ∈ separators) (before c : Char) (cs : List Char) :
    continuesNumber before c (cs ++ stop :: more).head? = continuesNumber before c cs.head? := by
  cases cs with
  | nil => simp [continuesNumber, (stopPlain mem).1]
  | cons => rfl

theorem numberSpanBefore (mem : stop ∈ separators) (before : Char) (cs : List Char) :
    numberSpan before (cs ++ stop :: more) = Prod.map id (· ++ stop :: more) (numberSpan before cs) := by
  induction cs generalizing before with
  | nil =>
    obtain ⟨word, quote, dot, plus, minus⟩ := stopPlain mem
    have ends : continuesNumber before stop more.head? = false := by
      simp [continuesNumber, word, dot, plus, minus, quoteOther quote]
    simp [numberSpan, ends]
  | cons c cs ih =>
    rw [List.cons_append, numberSpan, numberSpan, continuesBefore mem, ih]
    split <;> rfl

theorem spanBefore {p : Char → Bool} (ends : p stop = false) (cs more : List Char) :
    (cs ++ stop :: more).takeWhile p = cs.takeWhile p ∧
      (cs ++ stop :: more).dropWhile p = cs.dropWhile p ++ stop :: more := by
  induction cs with
  | nil => simp [ends]
  | cons c cs ih =>
    rw [List.cons_append, List.takeWhile_cons, List.takeWhile_cons, List.dropWhile_cons, List.dropWhile_cons, ih.1, ih.2]
    split <;> exact ⟨rfl, rfl⟩

theorem nextWordBefore (mem : stop ∈ separators) {word : List Char} (first : nextWord word cs = some (ts, rest)) :
    nextWord word (cs ++ stop :: more) = some (ts, rest ++ stop :: more) := by
  cases cs with
  | nil =>
    cases first
    simp [nextWord, (stopPlain mem).2.1]
  | cons c cs =>
    rw [List.cons_append]
    rw [nextWord] at first ⊢
    by_cases quoted : isQuote c && encodings.contains (String.ofList word)
    · rw [if_pos quoted] at first ⊢
      exact nextQuotedAppend first _
    · rw [if_neg quoted] at first ⊢
      cases first
      rfl

def joining : List Char := ['%', ':', '.', '<', '=', '>', '-', '+', '&', '|', '#', '*', '/']

/-- What the readers rely on in the list of symbols of a dialect. -/
structure SymbolTable (d : Dialect) : Prop where
  tails : (symbols d).all fun symbol => match symbol.toList with
    | [] => false
    | _ :: cs => cs.all fun x => !separators.contains x
  heads : (symbols d).all fun symbol => symbol.toList.head?.all fun c => !isWord c && !isQuote c
  sorted : (symbols d).Pairwise fun longer shorter => shorter.toList.length ≤ longer.toList.length
  starts : (symbols d).all fun symbol => match symbol.toList with
    | [] => false
    | [c] => start c none == .symbol
    | c :: x :: _ => start c (some x) == .symbol
  joined : (symbols d).all fun longer => longer.toList.tail.all joining.contains
  minus : ∀ longer ∈ symbols d, '-' ∈ longer.toList.tail → longer = "--"
  listed : separators.all fun c =>
    (symbols d).contains (String.singleton c) && String.singleton c != "/" && String.singleton c != "."
  short : (symbols d).all fun longer =>
    longer.toList.tail.isEmpty || longer.toList.head?.all (!separators.contains ·)

theorem symbolTable (d : Dialect) : SymbolTable d := by
  cases d with
  | c => constructor <;> decide +kernel
  | cxx => constructor <;> decide +kernel

theorem symbolTail {symbol : String} (mem : symbol ∈ symbols d) :
    ∃ c cs, symbol.toList = c :: cs ∧ ∀ x ∈ cs, x ∉ separators := by
  have here := List.all_eq_true.mp (symbolTable d).tails symbol mem
  split at here
  · contradiction
  · rename_i c cs split
    exact ⟨c, cs, split, fun x inside => by simpa using List.all_eq_true.mp here x inside⟩

theorem prefixBefore {p : List Char} (mem : stop ∈ separators) (apart : ∀ x ∈ p, x ∉ separators) (cs : List Char) :
    p.isPrefixOf (cs ++ stop :: more) = p.isPrefixOf cs := by
  induction p generalizing cs with
  | nil => simp
  | cons x p ih =>
    have other : x ≠ stop := fun same => apart x (List.mem_cons_self ..) (same ▸ mem)
    cases cs with
    | nil => simp [List.isPrefixOf, other]
    | cons c cs =>
      rw [List.cons_append, List.isPrefixOf, List.isPrefixOf]
      rw [ih fun y inside => apart y (List.mem_cons_of_mem _ inside)]

theorem nextSymbolBefore (mem : stop ∈ separators) (first : nextSymbol d (c :: cs) = some (ts, rest)) :
    nextSymbol d (c :: cs ++ stop :: more) = some (ts, rest ++ stop :: more) := by
  have same : ∀ symbol ∈ symbols d,
      symbol.toList.isPrefixOf (c :: cs ++ stop :: more) = symbol.toList.isPrefixOf (c :: cs) := by
    intro symbol inside
    obtain ⟨x, tail, split, apart⟩ := symbolTail inside
    rw [split, List.cons_append, List.isPrefixOf, List.isPrefixOf, prefixBefore mem apart]
  obtain ⟨symbol, found, told⟩ := Option.map_eq_some_iff.mp first
  cases told
  have held := List.find?_some found
  have short := (List.isPrefixOf_iff_prefix.mp held).length_le
  rw [nextSymbol, List.find?_congr same, found, Option.map_some, List.drop_append_of_le_length short]

theorem nextBefore (mem : stop ∈ separators) (first : next d cs = some (ts, rest)) :
    next d (cs ++ stop :: more) = some (ts, rest ++ stop :: more) := by
  cases cs with
  | nil => nomatch first
  | cons c cs =>
    rw [List.cons_append]
    rw [next] at first ⊢
    rw [headBefore mem]
    -- What begins here is decided by two characters, and none of the readers goes past the stop.
    cases began : start c cs.head? with
    | blank =>
      rw [began] at first
      cases first
      rfl
    | line =>
      rw [began] at first
      obtain ⟨left, found, told⟩ := Option.map_eq_some_iff.mp first
      cases told
      exact congrArg (Option.map _) (afterLineAppend found _)
    | comment =>
      rw [began] at first
      obtain ⟨left, found, told⟩ := Option.map_eq_some_iff.mp first
      cases told
      cases cs with
      | nil => nomatch found
      | cons x cs => exact congrArg (Option.map _) (afterCommentAppend found _)
    | number =>
      rw [began] at first
      cases first
      simp only [numberSpanBefore mem]
      rfl
    | quoted =>
      rw [began] at first
      exact nextQuotedAppend first _
    | word =>
      rw [began] at first
      obtain ⟨taken, left⟩ := spanBefore (stopPlain mem).1 (c :: cs) more
      rw [List.cons_append] at taken left
      simp only [taken, left]
      exact nextWordBefore mem first
    | symbol =>
      rw [began] at first
      exact nextSymbolBefore mem first

theorem Scans.before (whole : Scans d cs ts []) (mem : stop ∈ separators) (more : List Char) :
    Scans d (cs ++ stop :: more) ts (stop :: more) := by
  generalize ended : ([] : List Char) = rest at whole
  induction whole with
  | done =>
    subst ended
    exact .done
  | step first others ih => exact .step (nextBefore mem first) (ih ended)

end Before

section Single

variable {d : Dialect} {c : Char} {cs rest : List Char}

theorem wordOther {x : Char} (word : isWord c = true) (other : isWord x = false) : c ≠ x := by
  rintro rfl
  rw [word] at other
  contradiction

theorem wordOutside {l : List Char} (word : isWord c = true) (others : l.all (!isWord ·) = true) : c ∉ l := by
  intro mem
  have other := List.all_eq_true.mp others c mem
  rw [word] at other
  contradiction

theorem wordBlank (word : isWord c = true) : c ∉ blanks := wordOutside word (by decide)

theorem startWord (word : isWord c = true) (letter : c.isDigit = false) (after : Option Char) :
    start c after = .word := by
  have quote : isQuote c = false := by
    simp [isQuote, wordOther word (x := '\'') (by decide), wordOther word (x := '\"') (by decide)]
  simp [start, wordBlank word, quote, letter, word, wordOther word (x := '/') (by decide),
    wordOther word (x := '.') (by decide)]

theorem digitWord (digit : c.isDigit = true) : isWord c = true := by
  simp [isWord, Char.isAlphanum, digit]

theorem startDigit (digit : c.isDigit = true) (after : Option Char) : start c after = .number := by
  have word := digitWord digit
  simp [start, wordBlank word, digit, wordOther word (x := '/') (by decide), wordOther word (x := '.') (by decide)]

def isIdentifier (name : String) : Bool :=
  match name.toList with
  | [] => false
  | c :: cs => isWord c && !c.isDigit && cs.all isWord

theorem identifierSplit {name : String} (named : isIdentifier name = true) :
    ∃ c cs, name.toList = c :: cs ∧ isWord c = true ∧ c.isDigit = false ∧ ∀ x ∈ c :: cs, isWord x = true := by
  unfold isIdentifier at named
  split at named
  · contradiction
  · rename_i c cs split
    simp only [Bool.and_eq_true, Bool.not_eq_true', List.all_eq_true] at named
    exact ⟨c, cs, split, named.1.1, named.1.2, List.forall_mem_cons.mpr ⟨named.1.1, named.2⟩⟩

theorem nextIdentifier {name : String} (named : isIdentifier name = true)
    (ends : StopsAt (fun c => isWord c || isQuote c) rest) : next d (name.toList ++ rest) = some ([name], rest) := by
  obtain ⟨c, cs, split, word, letter, all⟩ := identifierSplit named
  have stops : StopsAt isWord rest := fun x here => (Bool.or_eq_false_iff.mp (ends x here)).1
  obtain ⟨taken, left⟩ := spanStops all stops
  have whole : String.ofList (c :: cs) = name := by rw [← split, String.ofList_toList]
  rw [split, List.cons_append, next, startWord word letter]
  rw [List.cons_append] at taken left
  simp only [taken, left]
  cases rest with
  | nil => rw [nextWord, whole]
  | cons x rest => simp [nextWord, (Bool.or_eq_false_iff.mp (ends x rfl)).2, whole]

def isNumeral (c : Char) : Bool := c.isDigit || ['.', 'u', 'l', 'f'].contains c

theorem numeralContinues {before : Char} (numeral : isNumeral c = true) (after : Option Char) :
    continuesNumber before c after = true := by
  simp only [isNumeral, Bool.or_eq_true, List.contains_eq_mem, decide_eq_true_eq, List.mem_cons, List.not_mem_nil,
    or_false] at numeral
  rcases numeral with digit | rfl | rfl | rfl | rfl
  · simp [continuesNumber, digitWord digit]
  all_goals rfl

theorem numeralMark (numeral : isNumeral c = true) : isExponent c = false := by
  rw [isExponent, List.contains_eq_mem, decide_eq_false_iff_not]
  intro mem
  simp only [List.mem_cons, List.not_mem_nil, or_false] at mem
  rcases mem with rfl | rfl | rfl | rfl <;> exact absurd numeral (by decide)

theorem numberSpanAll {before : Char} (first : isNumeral before = true) (all : ∀ c ∈ cs, isNumeral c = true)
    (ends : StopsAt (fun c => isWord c || c == '.' || c == '\'') rest) : numberSpan before (cs ++ rest) = (cs, rest) := by
  induction cs generalizing before with
  | nil =>
    cases rest with
    | nil => rfl
    | cons c rest =>
      have other := ends c rfl
      simp only [Bool.or_eq_false_iff] at other
      simp [numberSpan, continuesNumber, numeralMark first, other]
  | cons c cs ih =>
    have here := all c (List.mem_cons_self ..)
    rw [List.cons_append, numberSpan, if_pos (numeralContinues here _)]
    rw [ih here fun x inside => all x (List.mem_cons_of_mem _ inside)]
    rfl

theorem nextNumeral (began : start c (cs ++ rest).head? = .number) (all : ∀ x ∈ c :: cs, isNumeral x = true)
    (ends : StopsAt (fun c => isWord c || c == '.' || c == '\'') rest) :
    next d (c :: (cs ++ rest)) = some ([String.ofList (c :: cs)], rest) := by
  have others : ∀ x ∈ cs, isNumeral x = true := fun x inside => all x (List.mem_cons_of_mem _ inside)
  rw [next, began]
  simp only [numberSpanAll (all c (List.mem_cons_self ..)) others ends]
  rfl

theorem numberSpanDot (before : Char) (all : ∀ c ∈ cs, isNumeral c = true) (rest : List Char) :
    ∃ more left, numberSpan before (cs ++ '.' :: rest) = (cs ++ '.' :: more, left) := by
  induction cs generalizing before with
  | nil =>
    refine ⟨(numberSpan '.' rest).1, (numberSpan '.' rest).2, ?_⟩
    rw [List.nil_append, numberSpan, if_pos (numeralContinues (by decide) _)]
    rfl
  | cons c cs ih =>
    obtain ⟨more, left, taken⟩ := ih c fun x inside => all x (List.mem_cons_of_mem _ inside)
    refine ⟨more, left, ?_⟩
    rw [List.cons_append, numberSpan, if_pos (numeralContinues (all c (List.mem_cons_self ..)) _), taken]
    rfl

def controls : List Char := ['\n', '\r', '\t', '\x00']

theorem quoteVisible {quote : Char} (quotes : isQuote quote = true) : quote ∉ controls := by
  simp only [isQuote, Bool.or_eq_true, beq_iff_eq] at quotes
  rcases quotes with rfl | rfl <;> decide

theorem escapeShape {quote : Char} (quotes : isQuote quote = true) (c : Char) :
    (∃ m, m ∉ controls ∧ Text.escapeChar quote c = ['\\', m]) ∨
      (c ∉ '\\' :: quote :: controls ∧ Text.escapeChar quote c = [c]) := by
  unfold Text.escapeChar
  split_ifs with backslash newline carriage tab null quoted
  iterate 5 exact .inl ⟨_, by decide, rfl⟩
  · exact .inl ⟨c, quoted ▸ quoteVisible quotes, rfl⟩
  · exact .inr ⟨by simp [controls, *], rfl⟩

theorem spanEscaped {quote : Char} (quotes : isQuote quote = true) (cs rest : List Char) :
    quotedSpan quote false (Text.escapeChars quote cs ++ quote :: rest) =
      some (Text.escapeChars quote cs ++ [quote], rest) := by
  induction cs with
  | nil => simp [Text.escapeChars, quotedSpan]
  | cons c cs ih =>
    rw [Text.escapeCharsCons]
    rcases escapeShape quotes c with ⟨m, _, pair⟩ | ⟨apart, single⟩
    · have other : '\\' ≠ quote := by
        rintro rfl
        contradiction
      simp [pair, quotedSpan, other, ih]
    · simp only [controls, List.mem_cons, not_or] at apart
      have plain : (c == '\\') = false := beq_false_of_ne apart.1
      simp [single, quotedSpan, apart, plain, ih]

theorem nextChar (value : Char) (rest : List Char) :
    next d ((Text.quoteChar value).toList ++ rest) = some ([Text.quoteChar value], rest) := by
  have spanned : quotedSpan '\'' false (Text.escapeChar '\'' value ++ '\'' :: rest) =
      some (Text.escapeChar '\'' value ++ ['\''], rest) := by
    have quotes : isQuote '\'' = true := by decide
    simpa [Text.escapeChars] using spanEscaped quotes [value] rest
  rw [Text.quoteChar, String.toList_ofList, List.cons_append, List.append_assoc]
  show nextQuoted [] '\'' (Text.escapeChar '\'' value ++ '\'' :: rest) = _
  rw [nextQuoted, spanned]
  rfl

end Single

section Symbols

variable {d : Dialect} {symbol : String} {c : Char} {rest : List Char}

theorem symbolHead (mem : symbol ∈ symbols d) :
    ∃ c cs, symbol.toList = c :: cs ∧ isWord c = false ∧ isQuote c = false := by
  obtain ⟨c, cs, split, _⟩ := symbolTail mem
  have here := List.all_eq_true.mp (symbolTable d).heads symbol mem
  rw [split] at here
  exact ⟨c, cs, split, by simpa using here⟩

def goesOn (d : Dialect) (symbol : String) (c : Char) : Bool :=
  (symbols d).any fun longer => (symbol.toList ++ [c]).isPrefixOf longer.toList

theorem symbolFound (mem : symbol ∈ symbols d) (longest : StopsAt (goesOn d symbol) rest) :
    nextSymbol d (symbol.toList ++ rest) = some ([symbol], rest) := by
  have found : (symbols d).find? (fun s => s.toList.isPrefixOf (symbol.toList ++ rest)) = some symbol := by
    obtain ⟨tried, others, split, absent⟩ := List.eq_append_cons_of_mem mem
    have here : symbol.toList <+: symbol.toList ++ rest := List.prefix_append ..
    refine List.find?_eq_some_iff_append.mpr ⟨List.isPrefixOf_iff_prefix.mpr here, tried, others, split, ?_⟩
    intro longer inside
    rw [Bool.not_eq_true']
    refine Bool.eq_false_iff.mpr fun matched => ?_
    -- Those that are tried before are at least as long, so they begin with this one.
    have atLeast : symbol.toList.length ≤ longer.toList.length := by
      have sorted := split ▸ (symbolTable d).sorted
      exact (List.pairwise_append.mp sorted).2.2 longer inside symbol (List.mem_cons_self ..)
    have whole := List.isPrefixOf_iff_prefix.mp matched
    obtain ⟨tail, begun⟩ := List.prefix_of_prefix_length_le here whole atLeast
    cases tail with
    | nil =>
      rw [List.append_nil] at begun
      exact absent (String.toList_injective begun ▸ inside)
    | cons c tail =>
      rw [← begun, List.prefix_append_right_inj] at whole
      obtain ⟨more, rfl⟩ := whole
      have goes : (symbol.toList ++ [c]).isPrefixOf longer.toList = true :=
        List.isPrefixOf_iff_prefix.mpr ⟨tail, by rw [← begun, List.append_assoc]; rfl⟩
      have listed : longer ∈ symbols d := split ▸ List.mem_append_left _ inside
      exact Bool.eq_false_iff.mp (longest c rfl) (List.any_eq_true.mpr ⟨longer, listed, goes⟩)
  rw [nextSymbol, found, Option.map_some, List.drop_left]

theorem startSingle {x : Char} (alone : start c none = .symbol) (slash : c = '/' → (x == '/' || x == '*') = false)
    (dot : c = '.' → x.isDigit = false) : start c (some x) = .symbol := by
  by_cases isSlash : c = '/'
  · subst isSlash
    have other := slash rfl
    simp only [Bool.or_eq_false_iff, beq_eq_false_iff_ne] at other
    simp [start, blanks, other]
  · by_cases isDot : c = '.'
    · subst isDot
      simp [start, blanks, dot rfl]
    · simpa [start, isSlash, isDot] using alone

theorem symbolStarts (mem : symbol ∈ symbols d) (slash : symbol = "/" → StopsAt (fun c => c == '/' || c == '*') rest)
    (dot : symbol = "." → StopsAt Char.isDigit rest) :
    ∃ c cs, symbol.toList ++ rest = c :: cs ∧ start c cs.head? = .symbol := by
  have here := List.all_eq_true.mp (symbolTable d).starts symbol mem
  split at here
  · contradiction
  · rename_i c split
    refine ⟨c, rest, by rw [split]; rfl, ?_⟩
    have alone : start c none = .symbol := by simpa using here
    cases rest with
    | nil => exact alone
    | cons x rest =>
      refine startSingle alone (fun same => ?_) (fun same => ?_)
      · exact slash (String.toList_injective (by rw [split, same]; rfl)) x rfl
      · exact dot (String.toList_injective (by rw [split, same]; rfl)) x rfl
  · rename_i c x tail split
    exact ⟨c, x :: (tail ++ rest), by rw [split]; rfl, by simpa using here⟩

theorem nextSymbolToken (mem : symbol ∈ symbols d) (longest : StopsAt (goesOn d symbol) rest)
    (slash : symbol = "/" → StopsAt (fun c => c == '/' || c == '*') rest)
    (dot : symbol = "." → StopsAt Char.isDigit rest) : next d (symbol.toList ++ rest) = some ([symbol], rest) := by
  obtain ⟨c, cs, split, began⟩ := symbolStarts mem slash dot
  have found := symbolFound mem longest
  rw [split] at found ⊢
  rw [next, began]
  exact found

theorem goesOnJoining (mem : symbol ∈ symbols d) (other : c ∉ joining) : goesOn d symbol c = false := by
  obtain ⟨head, tail, split, _⟩ := symbolTail mem
  refine List.any_eq_false.mpr fun longer listed matched => other ?_
  have here := List.all_eq_true.mp (List.all_eq_true.mp (symbolTable d).joined longer listed) c
  obtain ⟨more, begun⟩ := List.isPrefixOf_iff_prefix.mp matched
  rw [← begun, split] at here
  simpa using here

theorem wordJoins (word : isWord c = true) : c ∉ joining := wordOutside word (by decide)

theorem goesOnMinus (mem : symbol ∈ symbols d) (other : symbol ≠ "-") : goesOn d symbol '-' = false := by
  obtain ⟨head, tail, split, _⟩ := symbolTail mem
  refine List.any_eq_false.mpr fun longer listed matched => other (String.toList_injective ?_)
  obtain ⟨more, begun⟩ := List.isPrefixOf_iff_prefix.mp matched
  obtain rfl := (symbolTable d).minus longer listed (by rw [← begun, split]; simp)
  have whole : "--".toList = ['-', '-'] := rfl
  rw [split, whole, List.cons_append, List.cons_append] at begun
  obtain ⟨rfl, rest⟩ := List.cons.inj begun
  have lengths := congrArg List.length rest
  simp only [List.length_append, List.length_cons, List.length_nil] at lengths
  rw [split, List.eq_nil_of_length_eq_zero (l := tail) (by omega)]
  rfl

theorem nextSymbolApart (mem : symbol ∈ symbols d) (apart : c ∉ joining) (dot : symbol = "." → c.isDigit = false)
    (rest : List Char) : next d (symbol.toList ++ c :: rest) = some ([symbol], c :: rest) := by
  refine nextSymbolToken mem (stopsCons (goesOnJoining mem apart)) (fun _ => stopsCons ?_) fun same => stopsCons (dot same)
  simp only [Bool.or_eq_false_iff, beq_eq_false_iff_ne]
  constructor
  all_goals
    rintro rfl
    exact apart (by decide)

theorem nextSeparator (mem : c ∈ separators) (rest : List Char) :
    next d (c :: rest) = some ([String.singleton c], rest) := by
  have here := List.all_eq_true.mp (symbolTable d).listed c mem
  simp only [Bool.and_eq_true, List.contains_eq_mem, decide_eq_true_eq, bne_iff_ne] at here
  obtain ⟨⟨inside, slash⟩, dot⟩ := here
  have longest : StopsAt (goesOn d (String.singleton c)) rest := by
    refine fun x _ => List.any_eq_false.mpr fun longer known matched => ?_
    obtain ⟨more, begun⟩ := List.isPrefixOf_iff_prefix.mp matched
    rw [String.toList_singleton] at begun
    have alone := List.all_eq_true.mp (symbolTable d).short longer known
    rw [← begun] at alone
    exact absurd mem (by simpa using alone)
  have first := nextSymbolToken inside longest (fun same => absurd same slash) fun same => absurd same dot
  rwa [String.toList_singleton] at first

end Symbols

end CSource.Tokens
