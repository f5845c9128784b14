import CSource.Proofs.Short
import CSource.Proofs.Tokens

/-!
Operands among operators. The text of an operand is one token or a qualified name, or it stands in parentheses, unless
it is a negative number: that one begins with an operator of its own, which nothing keeps apart from the operator in
front of it.
-/

namespace CSource

open Build Tokens

inductive Manner where
  | name
  | number
  | quoted
  | enclosed
  | negative
  deriving DecidableEq, Repr

inductive Unsigned : String → Prop where
  | integer {digits : List Char} {suffix : String} (given : digits ≠ []) (all : ∀ c ∈ digits, c.isDigit = true)
      (known : suffix ∈ ["", "u", "l", "ul", "ll", "ull"]) : Unsigned (String.ofList digits ++ suffix)
  | fixed {whole fraction : List Char} {suffix : String} (given : whole ≠ []) (all : ∀ c ∈ whole, c.isDigit = true)
      (also : ∀ c ∈ fraction, c.isDigit = true) (known : suffix ∈ ["", "f"]) :
      Unsigned (String.ofList (whole ++ '.' :: fraction) ++ suffix)

def closing : String → Option String
  | "(" => some ")"
  | "[" => some "]"
  | "\x7b" => some "\x7d"
  | _ => none

/-- The brackets among the tokens close each other, and then those that are open. -/
def nests : List String → List String → Bool
  | opened, [] => opened.isEmpty
  | opened, t :: ts =>
    match closing t with
    | some close => nests (close :: opened) ts
    | none => if [")", "]", "\x7d"].contains t then opened.head? == some t && nests opened.tail ts else nests opened ts

inductive Form (d : Dialect) : Manner → String → List String → Prop where
  | word {name : String} (named : isIdentifier name = true) : Form d .name name [name]
  | qualified {segments : List String} (cxx : d = .cxx) (given : segments ≠ [])
      (named : ∀ s ∈ segments, isIdentifier s = true) :
      Form d .name ("::".intercalate segments) (segments.intersperse "::")
  | number {text : String} (unsigned : Unsigned text) : Form d .number text [text]
  | quoted (value : Char) : Form d .quoted (Text.quoteChar value) [Text.quoteChar value]
  | enclosed {inner : String} {ts : List String} (scanned : Scans d inner.toList ts []) (nested : nests [] ts = true) :
      Form d .enclosed ("(" ++ inner ++ ")") ("(" :: (ts ++ [")"]))
  | negative {text : String} (unsigned : Unsigned text) : Form d .negative ("-" ++ text) ["-", text]

section Forms

variable {d : Dialect} {m : Manner} {text op : String} {ts us : List String} {c : Char} {rest : List Char}

/-- A character that the last token of an operand goes on with. -/
def Manner.goesOn (m : Manner) (c : Char) : Bool :=
  match m with
  | .name => isWord c || isQuote c
  | .number | .negative => isWord c || c == '.' || c == '\''
  | .quoted | .enclosed => false

theorem Unsigned.split (unsigned : Unsigned text) :
    ∃ c cs, text.toList = c :: cs ∧ c.isDigit = true ∧ ∀ x ∈ c :: cs, isNumeral x = true := by
  have numeral {x : Char} (digit : x.isDigit = true) : isNumeral x = true := by simp [isNumeral, digit]
  cases unsigned with
  | @integer digits suffix given all known =>
    obtain ⟨c, cs, rfl⟩ := List.exists_cons_of_ne_nil given
    have marks : ["", "u", "l", "ul", "ll", "ull"].all fun s => s.toList.all isNumeral := by decide
    refine ⟨c, cs ++ suffix.toList, by simp, all c (List.mem_cons_self ..), fun x inside => ?_⟩
    rw [← List.cons_append, List.mem_append] at inside
    rcases inside with digit | mark
    · exact numeral (all x digit)
    · exact List.all_eq_true.mp (List.all_eq_true.mp marks suffix known) x mark
  | @fixed whole fraction suffix given all also known =>
    obtain ⟨c, cs, rfl⟩ := List.exists_cons_of_ne_nil given
    have marks : ["", "f"].all fun s => s.toList.all isNumeral := by decide
    refine ⟨c, cs ++ '.' :: (fraction ++ suffix.toList), by simp, all c (List.mem_cons_self ..), fun x inside => ?_⟩
    rw [← List.cons_append, List.mem_append] at inside
    rcases inside with digit | later
    · exact numeral (all x digit)
    rcases List.mem_cons.mp later with rfl | last
    · rfl
    rcases List.mem_append.mp last with digit | mark
    · exact numeral (also x digit)
    · exact List.all_eq_true.mp (List.all_eq_true.mp marks suffix known) x mark

theorem Unsigned.scans (unsigned : Unsigned text) (ends : StopsAt Manner.number.goesOn rest) :
    Scans d (text.toList ++ rest) [text] rest := by
  obtain ⟨c, cs, split, digit, all⟩ := unsigned.split
  have first := nextNumeral (d := d) (startDigit digit _) all ends
  rw [← split, String.ofList_toList] at first
  rw [split]
  exact .one first

theorem Unsigned.behind (unsigned : Unsigned text) (mem : op ∈ symbols d) (other : op ≠ ".") (rest : List Char) :
    next d (op.toList ++ (text.toList ++ rest)) = some ([op], text.toList ++ rest) := by
  obtain ⟨c, cs, split, digit, _⟩ := unsigned.split
  rw [split]
  exact nextSymbolApart mem (wordJoins (digitWord digit)) (fun same => absurd same other) _

theorem signListed (d : Dialect) : "-" ∈ symbols d ∧ "--" ∈ symbols d := by
  cases d <;> decide

theorem intercalateBegins (s : String) (segments : List String) :
    ∃ more, "::".intercalate (s :: segments) = s ++ more := by
  cases segments with
  | nil => exact ⟨"", by simp⟩
  | cons t segments => exact ⟨"::" ++ "::".intercalate (t :: segments), by simp [String.append_assoc]⟩

theorem qualifiedScans {segments : List String} (given : segments ≠ []) (named : ∀ s ∈ segments, isIdentifier s = true)
    (ends : StopsAt Manner.name.goesOn rest) :
    Scans .cxx (("::".intercalate segments).toList ++ rest) (segments.intersperse "::") rest := by
  induction segments with
  | nil => contradiction
  | cons s segments ih =>
    have first := named s (List.mem_cons_self ..)
    cases segments with
    | nil => simpa using Scans.one (nextIdentifier first ends)
    | cons t segments =>
      have others := ih nofun fun u inside => named u (List.mem_cons_of_mem _ inside)
      have split : "::".intercalate (s :: t :: segments) = s ++ ("::" ++ "::".intercalate (t :: segments)) := by
        simp [String.append_assoc]
      obtain ⟨more, begins⟩ := intercalateBegins t segments
      obtain ⟨c, cs, headed, word, _⟩ := identifierSplit (named t (by simp))
      have colons : next .cxx ("::".toList ++ (("::".intercalate (t :: segments)).toList ++ rest)) =
          some (["::"], ("::".intercalate (t :: segments)).toList ++ rest) := by
        have listed : "::" ∈ symbols .cxx := by decide
        rw [begins, String.toList_append, headed]
        exact nextSymbolApart listed (wordJoins word) nofun _
      have name : next .cxx (s.toList ++ ("::".toList ++ (("::".intercalate (t :: segments)).toList ++ rest))) =
          some ([s], "::".toList ++ (("::".intercalate (t :: segments)).toList ++ rest)) :=
        nextIdentifier first (stopsCons (by decide))
      rw [split, String.toList_append, String.toList_append, List.append_assoc, List.append_assoc]
      exact .step name (.step colons others)

theorem Form.scans (form : Form d m text ts) (ends : StopsAt m.goesOn rest) : Scans d (text.toList ++ rest) ts rest := by
  cases form with
  | word named => exact .one (nextIdentifier named ends)
  | qualified cxx given named =>
    subst cxx
    exact qualifiedScans given named ends
  | number unsigned => exact unsigned.scans ends
  | quoted value => exact .one (nextChar value rest)
  | @enclosed inner ts scanned nested =>
    have closes : Scans d (inner.toList ++ ')' :: rest) (ts ++ [")"]) rest :=
      (scanned.before (by decide) rest).append (.one (nextSeparator (by decide) rest))
    have opens : next d ('(' :: (inner.toList ++ ')' :: rest)) = some (["("], inner.toList ++ ')' :: rest) :=
      nextSeparator (by decide) _
    simpa using Scans.step opens closes
  | negative unsigned =>
    rw [String.toList_append, List.append_assoc]
    exact .step (unsigned.behind (signListed d).1 (by decide) rest) (unsigned.scans ends)

def Manner.begins (m : Manner) (c : Char) : Bool :=
  match m with
  | .name => isWord c && !c.isDigit
  | .number => c.isDigit
  | .quoted => c == '\''
  | .enclosed => c == '('
  | .negative => c == '-'

theorem Form.head (form : Form d m text ts) : ∃ c cs, text.toList = c :: cs ∧ m.begins c = true := by
  cases form with
  | word named =>
    obtain ⟨c, cs, split, word, letter, _⟩ := identifierSplit named
    exact ⟨c, cs, split, by simp [Manner.begins, word, letter]⟩
  | @qualified segments cxx given named =>
    obtain ⟨s, segments, rfl⟩ := List.exists_cons_of_ne_nil given
    obtain ⟨more, begins⟩ := intercalateBegins s segments
    obtain ⟨c, cs, split, word, letter, _⟩ := identifierSplit (named s (List.mem_cons_self ..))
    exact ⟨c, cs ++ more.toList, by rw [begins, String.toList_append, split]; rfl, by simp [Manner.begins, word, letter]⟩
  | number unsigned =>
    obtain ⟨c, cs, split, digit, _⟩ := unsigned.split
    exact ⟨c, cs, split, digit⟩
  | quoted value => exact ⟨'\'', _, String.toList_ofList, rfl⟩
  | enclosed => exact ⟨'(', _, by simp; rfl, rfl⟩
  | negative => exact ⟨'-', _, by simp; rfl, rfl⟩

/-- The operator goes on with the operand behind it. -/
def Manner.runsInto (op : String) : Manner → Bool
  | .number => op == "."
  | .negative => op == "-"
  | _ => false

def Manner.takesUp (op : String) : Manner → Bool
  | .number | .negative => op.toList.head? == some '.'
  | _ => false

theorem Form.behind (form : Form d m text ts) (mem : op ∈ symbols d) (clear : m.runsInto op = false)
    (rest : List Char) : next d (op.toList ++ (text.toList ++ rest)) = some ([op], text.toList ++ rest) := by
  obtain ⟨c, cs, split, begins⟩ := form.head
  rw [split, List.cons_append]
  cases m with
  | negative =>
    obtain rfl : c = '-' := by simpa [Manner.begins] using begins
    have other : op ≠ "-" := by simpa [Manner.runsInto] using clear
    exact nextSymbolToken mem (stopsCons (goesOnMinus mem other)) (fun _ => stopsCons rfl) fun _ => stopsCons rfl
  | name =>
    simp only [Manner.begins, Bool.and_eq_true, Bool.not_eq_true'] at begins
    exact nextSymbolApart mem (wordJoins begins.1) (fun _ => begins.2) _
  | number =>
    have other : op ≠ "." := by simpa [Manner.runsInto] using clear
    exact nextSymbolApart mem (wordJoins (digitWord begins)) (fun same => absurd same other) _
  | quoted =>
    obtain rfl : c = '\'' := by simpa [Manner.begins] using begins
    exact nextSymbolApart mem (by decide) (fun _ => rfl) _
  | enclosed =>
    obtain rfl : c = '(' := by simpa [Manner.begins] using begins
    exact nextSymbolApart mem (by decide) (fun _ => rfl) _

/-- An operator that goes on with an operand is one token less. -/
theorem Form.merged (form : Form d m text ts) (into : m.runsInto op = true) (ends : StopsAt m.goesOn rest) :
    ∃ us, Scans d (op.toList ++ (text.toList ++ rest)) us rest ∧ us.length = ts.length := by
  cases form with
  | @number text unsigned =>
    obtain rfl : op = "." := by simpa [Manner.runsInto] using into
    obtain ⟨c, cs, split, digit, all⟩ := unsigned.split
    have began : start '.' ((c :: cs) ++ rest).head? = .number := by simp [start, blanks, digit]
    have first := nextNumeral (d := d) began (List.forall_mem_cons.mpr ⟨rfl, all⟩) ends
    rw [split]
    exact ⟨_, .one first, rfl⟩
  | @negative text unsigned =>
    obtain rfl : op = "-" := by simpa [Manner.runsInto] using into
    rw [String.toList_append, List.append_assoc]
    exact ⟨_, .step (unsigned.behind (signListed d).2 (by decide) rest) (unsigned.scans ends), rfl⟩
  | _ => contradiction

theorem symbolEnds (mem : op ∈ symbols d) (clear : m.takesUp op = false) (rest : List Char) :
    StopsAt m.goesOn (op.toList ++ rest) := by
  obtain ⟨c, cs, split, word, quote⟩ := symbolHead mem
  rw [split, List.cons_append]
  refine stopsCons ?_
  have dot (number : m = .number ∨ m = .negative) : c ≠ '.' := by
    rintro rfl
    rcases number with rfl | rfl <;> simp [Manner.takesUp, split] at clear
  cases m with
  | name => simp [Manner.goesOn, word, quote]
  | number => simp [Manner.goesOn, word, quoteOther quote, dot (.inl rfl)]
  | negative => simp [Manner.goesOn, word, quoteOther quote, dot (.inr rfl)]
  | quoted => rfl
  | enclosed => rfl

theorem Unsigned.takenUp (unsigned : Unsigned text) (rest : List Char) :
    ¬ Scans d (text.toList ++ '.' :: rest) (text :: us) [] := by
  intro whole
  obtain ⟨c, cs, split, digit, all⟩ := unsigned.split
  obtain ⟨more, left, taken⟩ := numberSpanDot c (fun x inside => all x (List.mem_cons_of_mem _ inside)) rest
  have first : next d (text.toList ++ '.' :: rest) = some ([String.ofList (c :: (cs ++ '.' :: more))], left) := by
    rw [split, List.cons_append, next, startDigit digit]
    simp only [taken]
    rfl
  obtain ⟨vs, same, _⟩ := whole.strip first
  have longer := congrArg String.toList (List.cons.inj same).1
  rw [split, String.toList_ofList] at longer
  have lengths := congrArg List.length longer
  simp only [List.length_cons, List.length_append] at lengths
  omega

theorem Form.takenUp (form : Form d m text ts) (takes : m.takesUp op = true) (rest : List Char) :
    ¬ Scans d (text.toList ++ (op.toList ++ rest)) (ts ++ us) [] := by
  have dotted (headed : op.toList.head? = some '.') : ∃ cs, op.toList = '.' :: cs := List.head?_eq_some_iff.mp headed
  cases form with
  | @number text unsigned =>
    obtain ⟨cs, split⟩ := dotted (by simpa [Manner.takesUp] using takes)
    rw [split]
    exact unsigned.takenUp _
  | @negative text unsigned =>
    obtain ⟨cs, split⟩ := dotted (by simpa [Manner.takesUp] using takes)
    intro whole
    rw [split, String.toList_append, List.append_assoc] at whole
    obtain ⟨vs, same, later⟩ := whole.strip (unsigned.behind (signListed d).1 (by decide) _)
    cases same
    exact unsigned.takenUp _ later
  | _ => contradiction

theorem separatorEnds (m : Manner) (mem : c ∈ separators) : StopsAt m.goesOn (c :: rest) := by
  obtain ⟨word, quote, dot, _⟩ := stopPlain mem
  refine stopsCons ?_
  cases m <;> simp [Manner.goesOn, word, quote, dot, quoteOther quote]

theorem Form.before (form : Form d m text ts) (mem : c ∈ separators) (later : Scans d rest us []) :
    Scans d (text.toList ++ c :: rest) (ts ++ String.singleton c :: us) [] :=
  (form.scans (separatorEnds m mem)).append (.step (nextSeparator mem rest) later)

theorem closes : Scans d [')'] [")"] [] := .one (nextSeparator (by decide) [])

theorem enclosedScans {inner : String} :
    Scans d ("(" ++ inner ++ ")").toList ("(" :: ts) [] ↔ Scans d (inner.toList ++ [')']) ts [] := by
  have whole : ("(" ++ inner ++ ")").toList = '(' :: (inner.toList ++ [')']) := by simp
  have opens : next d ('(' :: (inner.toList ++ [')'])) = some (["("], inner.toList ++ [')']) :=
    nextSeparator (by decide) _
  rw [whole]
  refine ⟨fun scanned => ?_, fun scanned => .step opens scanned⟩
  obtain ⟨vs, same, later⟩ := scanned.strip opens
  cases same
  exact later

theorem Form.tokensLost (form : Form d m text ts) (into : m.runsInto op = true) {cs : List Char}
    (first : Scans d cs us (op.toList ++ (text.toList ++ [')']))) : ¬ Scans d cs (us ++ op :: (ts ++ [")"])) [] := by
  intro whole
  have ends : StopsAt m.goesOn [')'] := separatorEnds m (by decide)
  obtain ⟨vs, merged, length⟩ := form.merged into ends
  have same := congrArg List.length ((first.append (merged.append closes)).unique whole)
  simp only [List.length_append, List.length_cons, List.length_nil] at same
  omega

theorem unaryScans (form : Form d m text ts) (mem : op ∈ symbols d) :
    Scans d ("(" ++ (op ++ text) ++ ")").toList ("(" :: op :: (ts ++ [")"])) [] ↔ m.runsInto op = false := by
  rw [enclosedScans, String.toList_append, List.append_assoc]
  constructor
  · intro whole
    rw [← Bool.not_eq_true]
    exact fun into => form.tokensLost into .done whole
  · intro clear
    exact .step (form.behind mem clear _) (form.before (by decide) .done)

theorem postfixScans (form : Form d m text ts) (mem : op ∈ symbols d) :
    Scans d ("(" ++ (text ++ op) ++ ")").toList ("(" :: (ts ++ [op, ")"])) [] ↔ m.takesUp op = false := by
  rw [enclosedScans, String.toList_append, List.append_assoc]
  constructor
  · intro whole
    rw [← Bool.not_eq_true]
    exact fun takes => form.takenUp takes _ whole
  · intro clear
    have last : next d (op.toList ++ [')']) = some ([op], [')']) := nextSymbolApart mem (by decide) (fun _ => rfl) []
    exact (form.scans (symbolEnds mem clear _)).append (.step last closes)

theorem binaryScans {n : Manner} {other : String} (left : Form d m text ts) (right : Form d n other us)
    (mem : op ∈ symbols d) :
    Scans d ("(" ++ (text ++ (op ++ other)) ++ ")").toList ("(" :: (ts ++ op :: (us ++ [")"]))) [] ↔
      m.takesUp op = false ∧ n.runsInto op = false := by
  rw [enclosedScans, String.toList_append, String.toList_append, List.append_assoc, List.append_assoc]
  constructor
  · intro whole
    have apart : m.takesUp op = false := by
      rw [← Bool.not_eq_true]
      exact fun takes => left.takenUp takes _ whole
    -- The operator is read as it stands behind the first operand, so only the second one can take it up.
    have first := left.scans (symbolEnds mem apart (other.toList ++ [')']))
    refine ⟨apart, ?_⟩
    rw [← Bool.not_eq_true]
    exact fun into => right.tokensLost into first whole
  · rintro ⟨apart, clear⟩
    have second : Scans d (op.toList ++ (other.toList ++ [')'])) (op :: (us ++ [")"])) [] :=
      .step (right.behind mem clear _) (right.before (by decide) .done)
    exact (left.scans (symbolEnds mem apart _)).append second

end Forms

structure Written where
  text : String
  tokens : List String

def Written.Kept (d : Dialect) (w : Written) : Prop := Scans d w.text.toList w.tokens []

structure Contribution extends Written where
  manner : Manner

namespace Contribution

def Formed (d : Dialect) (c : Contribution) : Prop := Form d c.manner c.text c.tokens

def unary (op : String) (c : Contribution) : Written := ⟨"(" ++ (op ++ c.text) ++ ")", "(" :: op :: (c.tokens ++ [")"])⟩

def postfixed (c : Contribution) (op : String) : Written := ⟨"(" ++ (c.text ++ op) ++ ")", "(" :: (c.tokens ++ [op, ")"])⟩

def binary (l : Contribution) (op : String) (r : Contribution) : Written :=
  ⟨"(" ++ (l.text ++ (op ++ r.text)) ++ ")", "(" :: (l.tokens ++ op :: (r.tokens ++ [")"]))⟩

def call (c : Contribution) (args : List Contribution) : Written :=
  ⟨"(" ++ (c.text ++ ("(" ++ ",".intercalate (args.map (·.text)) ++ ")")) ++ ")",
    "(" :: (c.tokens ++ "(" :: ([","].intercalate (args.map (·.tokens)) ++ [")", ")"]))⟩

def index (c : Contribution) (indices : List Contribution) : Written :=
  ⟨"(" ++ (c.text ++ String.join ((indices.map (·.text)).map fun t => "[" ++ t ++ "]")) ++ ")",
    "(" :: (c.tokens ++ (indices.flatMap (fun x => "[" :: (x.tokens ++ ["]"])) ++ [")"]))⟩

end Contribution

section Lists

variable {d : Dialect} {x : Contribution} {xs : List Contribution} {rest : List Char} {us : List String}

theorem argsScan (formed : ∀ x ∈ xs, x.Formed d) (later : Scans d (')' :: rest) us []) :
    Scans d ((",".intercalate (xs.map (·.text))).toList ++ ')' :: rest) ([","].intercalate (xs.map (·.tokens)) ++ us) [] := by
  induction xs with
  | nil => simpa using later
  | cons x xs ih =>
    have first := formed x (List.mem_cons_self ..)
    have others := ih fun y inside => formed y (List.mem_cons_of_mem _ inside)
    cases xs with
    | nil => simpa using (first.scans (separatorEnds _ (by decide))).append later
    | cons y xs => simpa using first.before (c := ',') (by decide) others

theorem indicesScan (formed : ∀ x ∈ xs, x.Formed d) (later : Scans d (')' :: rest) us []) :
    Scans d ((String.join ((xs.map (·.text)).map fun t => "[" ++ t ++ "]")).toList ++ ')' :: rest)
      (xs.flatMap (fun x => "[" :: (x.tokens ++ ["]"])) ++ us) [] := by
  induction xs with
  | nil => simpa using later
  | cons x xs ih =>
    have first := formed x (List.mem_cons_self ..)
    have others := ih fun y inside => formed y (List.mem_cons_of_mem _ inside)
    have one := first.before (c := ']') (by decide) others
    simpa using Scans.step (nextSeparator (c := '[') (by decide) _) one

theorem callKept (callee : x.Formed d) (formed : ∀ x ∈ xs, x.Formed d) : (x.call xs).Kept d := by
  have args := argsScan formed (Scans.step (nextSeparator (by decide) [')']) closes)
  refine enclosedScans.mpr ?_
  simpa using callee.before (c := '(') (by decide) args

theorem indexKept (base : x.Formed d) (formed : ∀ x ∈ xs, x.Formed d) : (x.index xs).Kept d := by
  have ends : StopsAt x.manner.goesOn ((String.join ((xs.map (·.text)).map fun t => "[" ++ t ++ "]")).toList ++ [')']) := by
    cases xs with
    | nil => exact separatorEnds _ (by decide)
    | cons y ys =>
      rw [List.map_cons, List.map_cons, String.join_cons, String.toList_append, String.toList_append, String.toList_append]
      exact separatorEnds _ (c := '[') (by decide)
  refine enclosedScans.mpr ?_
  rw [String.toList_append, List.append_assoc]
  exact (base.scans ends).append (indicesScan formed closes)

end Lists

section Literals

variable {d : Dialect}

def Number.Binary.manner? : Number.Binary → Option Manner
  | .finite negative _ _ => some (if negative then .negative else .number)
  | _ => none

/-- The manner of a literal. Strings are no operands, and neither are numbers that are not finite. -/
def Literal.manner? (d : Dialect) : Literal → Option Manner
  | .int value => some (if value.toInt < 0 then .negative else .number)
  | .long value | .longLong value => some (if value.toInt < 0 then .negative else .number)
  | .unsigned _ | .unsignedLong _ | .unsignedLongLong _ => some .number
  | .float word => (Number.Binary.ofWord32 word).manner?
  | .double word => (Number.Binary.ofWord64 word).manner?
  | .char _ => some .quoted
  | .bool _ => some (if d.isCxx then .name else .number)
  | .null => some (if d.isCxx then .name else .enclosed)
  | .verbatim _ | .string _ => none

theorem digitOfDecimal {n : Nat} {c : Char} (mem : c ∈ Nat.toDigits 10 n) : c.isDigit = true :=
  Nat.isDigit_of_mem_toDigits (by decide) (by decide) mem

theorem digitOfPadded {width n : Nat} {c : Char} (mem : c ∈ Number.paddedDigits width n) : c.isDigit = true := by
  rcases List.mem_append.mp mem with padding | digit
  · rw [List.eq_of_mem_replicate padding]
    rfl
  · exact digitOfDecimal digit

theorem integerForm (n : Int) {suffix : String} (known : suffix ∈ ["", "u", "l", "ul", "ll", "ull"]) :
    ∃ ts, Form d (if n < 0 then .negative else .number) (decimal n ++ suffix) ts := by
  have unsigned (m : Nat) : Unsigned (String.ofList (Nat.toDigits 10 m) ++ suffix) :=
    .integer Nat.toDigits_ne_nil (fun _ => digitOfDecimal) known
  cases n with
  | ofNat m =>
    have positive : ¬ Int.ofNat m < 0 := Int.not_lt.mpr (Int.natCast_nonneg m)
    rw [if_neg positive]
    exact ⟨_, .number (unsigned m)⟩
  | negSucc m =>
    have split : decimal (.negSucc m) ++ suffix = "-" ++ (String.ofList (Nat.toDigits 10 (m + 1)) ++ suffix) :=
      String.toList_injective (by simp [decimal])
    rw [split, if_pos (Int.negSucc_lt_zero m)]
    exact ⟨_, .negative (unsigned (m + 1))⟩

theorem fixedForm {b : Number.Binary} {m : Manner} (finite : b.manner? = some m) {suffix : String}
    (known : suffix ∈ ["", "f"]) : ∃ ts, Form d m (b.fixed ++ suffix) ts := by
  have unsigned (units : Nat) : Unsigned (Number.decimalText units ++ suffix) :=
    .fixed Nat.toDigits_ne_nil (fun _ => digitOfDecimal) (fun _ => digitOfPadded) known
  cases b with
  | finite negative numerator scale =>
    cases finite
    cases negative with
    | false => exact ⟨_, by simpa [Number.Binary.fixed, Number.sign] using Form.number (unsigned _)⟩
    | true =>
      rw [Number.Binary.fixed, String.append_assoc]
      exact ⟨_, .negative (unsigned _)⟩
  | _ => nomatch finite

theorem nullForm : Form .c .enclosed "((void*)0)" ["(", "(", "void", "*", ")", "0", ")"] := by
  have zero : next .c ['0'] = some (["0"], []) := rfl
  have close : next .c ")0".toList = some ([")"], ['0']) := rfl
  have star : next .c "*)0".toList = some (["*"], ")0".toList) := rfl
  have void : next .c "void*)0".toList = some (["void"], "*)0".toList) := rfl
  have opening : next .c "(void*)0".toList = some (["("], "void*)0".toList) := rfl
  have scanned := Scans.step opening (.step void (.step star (.step close (.one zero))))
  exact .enclosed scanned (by decide)

theorem digitForm {c : Char} (digit : c.isDigit = true) : Form d .number (String.singleton c) [String.singleton c] := by
  have unsigned : Unsigned (String.ofList [c] ++ "") :=
    .integer nofun (List.forall_mem_singleton.mpr digit) (by decide)
  rw [String.append_empty] at unsigned
  exact .number unsigned

theorem literalForm {l : Literal} {m : Manner} (value : l.manner? d = some m) : ∃ ts, Form d m (l.text d) ts := by
  have unsigned (n : Nat) {suffix : String} (known : suffix ∈ ["", "u", "l", "ul", "ll", "ull"]) :
      ∃ ts, Form d .number (decimal n ++ suffix) ts := by
    have form := integerForm (d := d) n known
    rwa [if_neg (Int.not_lt.mpr (Int.natCast_nonneg n))] at form
  have plain : "" ∈ ["", "u", "l", "ul", "ll", "ull"] := by decide
  cases l with
  | int v =>
    cases value
    simpa [Literal.text] using integerForm (d := d) v.toInt plain
  | unsigned v =>
    cases value
    exact unsigned v.toNat (by decide)
  | long v =>
    cases value
    exact integerForm v.toInt (by decide)
  | unsignedLong v =>
    cases value
    exact unsigned v.toNat (by decide)
  | longLong v =>
    cases value
    exact integerForm v.toInt (by decide)
  | unsignedLongLong v =>
    cases value
    exact unsigned v.toNat (by decide)
  | float word => exact fixedForm value (by decide)
  | double word =>
    have plain : "" ∈ ["", "f"] := by decide
    simpa [Literal.text] using fixedForm (d := d) value plain
  | char c =>
    cases value
    exact ⟨_, .quoted c⟩
  | bool b =>
    cases value
    cases d with
    | cxx => cases b <;> exact ⟨_, .word rfl⟩
    | c =>
      cases b with
      | false => exact ⟨_, digitForm (c := '0') rfl⟩
      | true => exact ⟨_, digitForm (c := '1') rfl⟩
  | null =>
    cases value
    cases d with
    | cxx => exact ⟨_, .word rfl⟩
    | c => exact ⟨_, nullForm⟩
  | verbatim | string => nomatch value

end Literals

/-- The operands whose text is known to be one of the language, and the manner of it. -/
inductive Arena.Admits (a : Arena) : Operand → Manner → Prop where
  | literal {l : Literal} {m : Manner} (value : l.manner? a.dialect = some m) : Admits a (.literal l) m
  | ident {name : String} (named : isIdentifier name = true) : Admits a (.ident name) .name
  | qualName {name : QualName} (cxx : a.dialect = .cxx) (given : name.segments ≠ [])
      (named : ∀ s ∈ name.segments, isIdentifier s = true) : Admits a (.qualName name) .name
  | expr {e : ExprRef} {inner : String} {ts : List String} (own : e.arena = a.number)
      (rendered : a.render e.ref = .ok inner) (scanned : Scans a.dialect inner.toList ts [])
      (nested : nests [] ts = true) : Admits a (.expr e) .enclosed
  | var {d : DeclRef} {name : String} (own : d.arena = a.number) (found : a.declName d = .ok (.ofString name))
      (named : isIdentifier name = true) : Admits a (.var d) .name

def Arena.Contributes (a : Arena) (x : Operand) (c : Contribution) : Prop :=
  a.OperandText x c.text ∧ c.Formed a.dialect

/-- The text is one token or a qualified name, or it stands in parentheses. -/
def Solid (d : Dialect) (text : String) : Prop := ∃ m ts, m ≠ .negative ∧ Form d m text ts

section Calls

variable {a : Arena} {x : Operand} {m : Manner}

theorem admittedContributes (admitted : a.Admits x m) : ∃ text ts, a.Contributes x ⟨⟨text, ts⟩, m⟩ := by
  cases admitted with
  | @literal l m value =>
    obtain ⟨ts, form⟩ := literalForm value
    exact ⟨l.text a.dialect, ts, .literal l, form⟩
  | @ident name named => exact ⟨name, [name], .ident name, .word named⟩
  | @qualName name cxx given named => exact ⟨name.text, _, .qualName name cxx, .qualified cxx given named⟩
  | expr own rendered scanned nested => exact ⟨_, _, .expr own rendered, .enclosed scanned nested⟩
  | @var d name own found named =>
    have told := Arena.OperandText.var own found
    have single : (QualName.ofString name).text = name := by simp [QualName.ofString, QualName.text]
    rw [single] at told
    exact ⟨name, [name], told, .word named⟩

theorem formSolid {d : Dialect} {text : String} {ts : List String} (form : Form d m text ts) :
    Solid d text ↔ m ≠ .negative := by
  refine ⟨?_, fun other => ⟨m, ts, other, form⟩⟩
  rintro ⟨n, us, other, again⟩ rfl
  obtain ⟨c, cs, split, begins⟩ := form.head
  obtain ⟨e, es, same, starts⟩ := again.head
  rw [split] at same
  cases same
  obtain rfl : c = '-' := by simpa [Manner.begins] using begins
  cases n <;> contradiction

theorem contributionsTell {xs : List Operand} {cs : List Contribution} (given : List.Forall₂ a.Contributes xs cs) :
    List.Forall₂ a.OperandText xs (cs.map (·.text)) ∧ ∀ c ∈ cs, c.Formed a.dialect := by
  induction given with
  | nil => exact ⟨.nil, nofun⟩
  | cons first others ih => exact ⟨.cons first.1 ih.1, List.forall_mem_cons.mpr ⟨first.2, ih.2⟩⟩

end Calls

theorem operandsStandApart {p : Policy} {w : World} (reachable : w.Reachable p) {n : Nat} {a : Arena}
    (here : w.session.arenas[n]? = some a) :
    (∀ x m, a.Admits x m → ∃ text ts, a.Contributes x ⟨⟨text, ts⟩, m⟩ ∧ Scans a.dialect text.toList ts [] ∧
      (Solid a.dialect text ↔ m ≠ .negative)) ∧
    (∀ op ∈ symbols a.dialect, ∀ x c, a.Contributes x c →
      (Makes (shortUnary op x) a (c.unary op).text ∧ ((c.unary op).Kept a.dialect ↔ c.manner.runsInto op = false)) ∧
      (Makes (shortPostfix x op) a (c.postfixed op).text ∧
        ((c.postfixed op).Kept a.dialect ↔ c.manner.takesUp op = false)) ∧
      ∀ y e, a.Contributes y e → Makes (shortBinary x op y) a (c.binary op e).text ∧
        ((c.binary op e).Kept a.dialect ↔ c.manner.takesUp op = false ∧ e.manner.runsInto op = false)) ∧
    ∀ x c xs cs, a.Contributes x c → List.Forall₂ a.Contributes xs cs →
      (Makes (shortCall x xs) a (c.call cs).text ∧ (c.call cs).Kept a.dialect) ∧
      (Makes (shortIndex x xs) a (c.index cs).text ∧ (c.index cs).Kept a.dialect) := by
  have quiet := (reachable.regular here).settled.quiet
  refine ⟨fun x m admitted => ?_, fun op mem x c given => ⟨?_, ?_, fun y e also => ?_⟩, fun x c xs cs given others => ?_⟩
  · obtain ⟨text, ts, given⟩ := admittedContributes admitted
    have alone : Scans a.dialect (text.toList ++ []) ts [] := given.2.scans nofun
    rw [List.append_nil] at alone
    exact ⟨text, ts, given, alone, formSolid given.2⟩
  · exact ⟨makesUnary quiet given.1 op, unaryScans given.2 mem⟩
  · exact ⟨makesPostfix quiet given.1 op, postfixScans given.2 mem⟩
  · exact ⟨makesBinary quiet given.1 op also.1, binaryScans given.2 also.2 mem⟩
  · obtain ⟨texts, formed⟩ := contributionsTell others
    exact ⟨⟨makesCall quiet given.1 texts, callKept given.2 formed⟩, makesIndex quiet given.1 texts, indexKept given.2 formed⟩

theorem minusTakesSign :
    Makes (shortUnary "-" (.literal (.int (-5)))) (.new 0 .c) "(--5)" ∧ ¬ Solid .c "-5" ∧
      ¬ Scans .c "(--5)".toList ["(", "-", "-", "5", ")"] [] ∧ Scans .c "(--5)".toList ["(", "--", "5", ")"] [] := by
  obtain ⟨admitted, applied, _⟩ :=
    operandsStandApart (World.Reachable.start.grow (p := .strict) .c) (n := 0) (a := .new 0 .c) rfl
  obtain ⟨text, ts, given, _, solid⟩ := admitted _ _ (.literal (l := .int (-5)) rfl)
  have same : text = "-5" := by
    cases given.1
    rfl
  subst same
  obtain ⟨⟨made, _⟩, _⟩ := applied "-" (by decide) _ _ given
  have five : next .c "5)".toList = some (["5"], [')']) := rfl
  have decrement : next .c "--5)".toList = some (["--"], "5)".toList) := rfl
  have opening : next .c "(--5)".toList = some (["("], "--5)".toList) := rfl
  have scanned : Scans .c "(--5)".toList ["(", "--", "5", ")"] [] :=
    .step opening (.step decrement (.step five closes))
  refine ⟨made, fun whole => solid.mp whole rfl, fun whole => ?_, scanned⟩
  have tokens := whole.unique scanned
  contradiction

end CSource
