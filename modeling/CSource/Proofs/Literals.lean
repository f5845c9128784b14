import CSource.Proofs.Short
import CSource.Proofs.Tokens
import Mathlib.Data.List.TakeWhile

/-!
Escaped literals. Whatever stands behind one, it is one token, and no two texts are escaped alike. A reader of the
language takes up to three octal digits for one escape, so it finds the text again unless an octal digit stands behind a
null character there.
-/

namespace CSource

open Build Text Tokens

namespace Quoted

def simpleEscape : Char → Option Char
  | '\'' => some '\''
  | '\"' => some '\"'
  | '?' => some '?'
  | '\\' => some '\\'
  | 'a' => some '\x07'
  | 'b' => some '\x08'
  | 'f' => some '\x0c'
  | 'n' => some '\n'
  | 'r' => some '\r'
  | 't' => some '\t'
  | 'v' => some '\x0b'
  | _ => none

def isOctal (c : Char) : Bool := ['0', '1', '2', '3', '4', '5', '6', '7'].contains c

def octalValue (digits : List Char) : Nat := digits.foldl (fun n c => 8 * n + (c.toNat - '0'.toNat)) 0

def octalDigits (most : Nat) (cs : List Char) : List Char := (cs.take most).takeWhile isOctal

def octalEscape (cs : List Char) : Option (Char × List Char) :=
  match octalDigits 3 cs with
  | [] => none
  | digits => some (Char.ofNat (octalValue digits), cs.drop digits.length)

/-- The first character that the inside of a literal denotes, and what follows it. -/
def first : List Char → Option (Char × List Char)
  | [] => none
  | c :: cs =>
    if c = '\\' then
      match cs with
      | [] => none
      | mark :: rest =>
        match simpleEscape mark with
        | some d => some (d, rest)
        | none => octalEscape cs
    else some (c, cs)

def denotedWithin : Nat → List Char → Option (List Char)
  | _, [] => some []
  | 0, _ :: _ => none
  | n + 1, cs => do
    let (c, rest) ← first cs
    let others ← denotedWithin n rest
    pure (c :: others)

def read (quote : Char) (text : String) : Option (List Char) :=
  match text.toList with
  | [] => none
  | c :: cs =>
    match quotedSpan quote false cs with
    | some (inside, []) => if c = quote then denotedWithin inside.length inside.dropLast else none
    | _ => none

def NullsApart (cs : List Char) : Prop := ∀ c, isOctal c = true → ¬ ['\x00', c] <:+: cs

variable {quote c : Char} {cs ds rest : List Char}

section Digits

theorem octalDigitsStop {most : Nat} : octalDigits (most + 1) cs = [] ↔ StopsAt isOctal cs := by
  cases cs <;> simp [octalDigits, StopsAt]

theorem octalDigitsSplit (most : Nat) (cs : List Char) :
    octalDigits most cs ++ cs.drop (octalDigits most cs).length = cs :=
  List.prefix_iff_eq_append.mp ((List.takeWhile_prefix _).trans (List.take_prefix ..))

theorem octalInert (quotes : isQuote quote = true) (octal : isOctal c = true) : escapeChar quote c = [c] := by
  simp only [isOctal, List.contains_iff_mem, List.mem_cons, List.not_mem_nil, or_false] at octal
  simp only [isQuote, Bool.or_eq_true, beq_iff_eq] at quotes
  rcases quotes with rfl | rfl <;> rcases octal with rfl | rfl | rfl | rfl | rfl | rfl | rfl | rfl <;> rfl

theorem octalsInert (quotes : isQuote quote = true) (octal : ∀ c ∈ ds, isOctal c = true) :
    escapeChars quote ds = ds := by
  induction ds with
  | nil => rfl
  | cons d ds ih =>
    rw [escapeCharsCons, octalInert quotes (octal d (List.mem_cons_self ..)),
      ih fun x mem => octal x (List.mem_cons_of_mem _ mem)]
    rfl

theorem escapeHead (quotes : isQuote quote = true) (other : isOctal c = false) :
    ∃ x xs, escapeChar quote c = x :: xs ∧ isOctal x = false := by
  rcases escapeShape quotes c with ⟨m, _, pair⟩ | ⟨_, single⟩
  · exact ⟨'\\', [m], pair, rfl⟩
  · exact ⟨c, [], single, other⟩

theorem octalDigitsEscaped (quotes : isQuote quote = true) (most : Nat) (cs : List Char) :
    octalDigits most (escapeChars quote cs) = octalDigits most cs := by
  induction cs generalizing most with
  | nil => rfl
  | cons c cs ih =>
    cases most with
    | zero => rfl
    | succ most =>
      rw [escapeCharsCons]
      cases octal : isOctal c with
      | true =>
        rw [octalInert quotes octal]
        simpa [octalDigits, octal] using ih most
      | false =>
        obtain ⟨x, xs, head, inert⟩ := escapeHead quotes octal
        simp [head, octalDigits, octal, inert]

end Digits

section Reading

theorem firstEscaped (quotes : isQuote quote = true) (other : c ≠ '\x00') (rest : List Char) :
    first (escapeChar quote c ++ rest) = some (c, rest) := by
  unfold escapeChar
  split_ifs with backslash newline carriage tab quoted
  · subst backslash; rfl
  · subst newline; rfl
  · subst carriage; rfl
  · subst tab; rfl
  · subst quoted
    simp only [isQuote, Bool.or_eq_true, beq_iff_eq] at quotes
    rcases quotes with rfl | rfl <;> rfl
  · simp [first, backslash]

theorem firstNull (quotes : isQuote quote = true) (cs : List Char) :
    first (escapeChars quote ('\x00' :: cs)) =
      some (Char.ofNat (octalValue (octalDigits 2 cs)), escapeChars quote (cs.drop (octalDigits 2 cs).length)) := by
  have taken : octalDigits 3 ('0' :: escapeChars quote cs) = '0' :: octalDigits 2 cs :=
    congrArg ('0' :: ·) (octalDigitsEscaped quotes 2 cs)
  have octal : ∀ c ∈ octalDigits 2 cs, isOctal c = true := fun c mem => List.mem_takeWhile_imp mem
  have split : escapeChars quote cs = octalDigits 2 cs ++ escapeChars quote (cs.drop (octalDigits 2 cs).length) := by
    rw [← octalsInert quotes octal, ← escapeCharsAppend, octalsInert quotes octal, octalDigitsSplit]
  have rest : (escapeChars quote cs).drop (octalDigits 2 cs).length =
      escapeChars quote (cs.drop (octalDigits 2 cs).length) := by
    rw [split, List.drop_left]
  show octalEscape ('0' :: escapeChars quote cs) = _
  rw [octalEscape, taken]
  simp [octalValue, rest]

theorem denotedCons {n : Nat} (head : first cs = some (c, rest)) (tail : denotedWithin n rest = some ds) :
    denotedWithin (n + 1) cs = some (c :: ds) := by
  cases cs with
  | nil => nomatch head
  | cons d cs => simp [denotedWithin, head, tail]

theorem nullsApartNil : NullsApart [] := by simp [NullsApart]

theorem nullsApartCons : NullsApart (c :: cs) ↔ (c = '\x00' → StopsAt isOctal cs) ∧ NullsApart cs := by
  simp only [NullsApart, StopsAt, List.infix_cons_iff]
  constructor
  · intro apart
    refine ⟨?_, fun d octal inside => apart d octal (.inr inside)⟩
    rintro rfl d head
    obtain ⟨ds, rfl⟩ := List.head?_eq_some_iff.mp head
    exact Bool.eq_false_iff.mpr fun octal => apart d octal (.inl ⟨ds, rfl⟩)
  · rintro ⟨head, tail⟩ d octal (⟨ds, same⟩ | inside)
    · cases same
      simp [head rfl d rfl] at octal
    · exact tail d octal inside

theorem denotedEscaped (quotes : isQuote quote = true) {n : Nat} (enough : cs.length ≤ n) :
    ∃ ds, denotedWithin n (escapeChars quote cs) = some ds ∧ ds.length ≤ cs.length ∧
      (NullsApart cs → ds = cs) ∧ (ds.length = cs.length → NullsApart cs) := by
  induction n generalizing cs with
  | zero =>
    cases List.eq_nil_of_length_eq_zero (Nat.le_zero.mp enough)
    exact ⟨[], rfl, Nat.le_refl _, fun _ => rfl, fun _ => nullsApartNil⟩
  | succ n ih =>
    cases cs with
    | nil => exact ⟨[], rfl, Nat.le_refl _, fun _ => rfl, fun _ => nullsApartNil⟩
    | cons c cs =>
      rw [List.length_cons] at enough
      by_cases null : c = '\x00'
      · subst null
        have digits := congrArg List.length (octalDigitsSplit 2 cs)
        rw [List.length_append] at digits
        have left : (cs.drop (octalDigits 2 cs).length).length ≤ n := by omega
        obtain ⟨ds, done, shorter, same, whole⟩ := ih left
        refine ⟨_, denotedCons (firstNull quotes cs) done, ?_, fun apart => ?_, fun length => ?_⟩
        · simp only [List.length_cons]
          omega
        · obtain ⟨stops, apart⟩ := nullsApartCons.mp apart
          have none : octalDigits 2 cs = [] := octalDigitsStop.mpr (stops rfl)
          rw [none] at same ⊢
          rw [same apart]
          rfl
        · simp only [List.length_cons, Nat.add_right_cancel_iff] at length
          have none : octalDigits 2 cs = [] := List.eq_nil_of_length_eq_zero (by omega)
          rw [none] at whole
          exact nullsApartCons.mpr ⟨fun _ => octalDigitsStop.mp none, whole length⟩
      · have left : cs.length ≤ n := by omega
        obtain ⟨ds, done, shorter, same, whole⟩ := ih left
        have head := firstEscaped quotes null (escapeChars quote cs)
        rw [← escapeCharsCons] at head
        refine ⟨c :: ds, denotedCons head done, by simpa using shorter, fun apart => ?_, fun length => ?_⟩
        · rw [same (nullsApartCons.mp apart).2]
        · exact nullsApartCons.mpr ⟨fun hit => absurd hit null, whole (by simpa using length)⟩

theorem escapedLonger (quotes : isQuote quote = true) (cs : List Char) : cs.length ≤ (escapeChars quote cs).length := by
  induction cs with
  | nil => exact Nat.zero_le _
  | cons c cs ih =>
    rw [escapeCharsCons, List.length_append, List.length_cons]
    rcases escapeShape quotes c with ⟨m, _, pair⟩ | ⟨_, single⟩
    · rw [pair, List.length_cons]
      omega
    · rw [single, List.length_singleton]
      omega

def Encloses (quote : Char) (cs : List Char) (text : String) : Prop :=
  text.toList = quote :: (escapeChars quote cs ++ [quote])

theorem enclosesString (s : String) : Encloses '\"' s.toList ("\"" ++ escapeString s ++ "\"") := by
  simp [Encloses, escapeString]

theorem enclosesChar (c : Char) : Encloses '\'' [c] (quoteChar c) := by
  simp [Encloses, quoteChar, escapeChars]

variable {text : String}

theorem Encloses.read (quotes : isQuote quote = true) (encloses : Encloses quote cs text) :
    ∃ ds, read quote text = some ds ∧ ds.length ≤ cs.length ∧ (ds = cs ↔ NullsApart cs) ∧
      (ds.length = cs.length ↔ NullsApart cs) := by
  have enough : cs.length ≤ (escapeChars quote cs).length + 1 := Nat.le_succ_of_le (escapedLonger quotes cs)
  obtain ⟨ds, done, shorter, same, whole⟩ := denotedEscaped quotes enough
  refine ⟨ds, ?_, shorter, ⟨fun equal => whole (congrArg _ equal), same⟩, whole, fun apart => congrArg _ (same apart)⟩
  unfold Encloses at encloses
  simp [Quoted.read, encloses, spanEscaped quotes cs [], done]

end Reading

section Tokens

/-- The text is one literal, whatever stands behind it. -/
def OneToken (quote : Char) (text : String) : Prop :=
  ∃ inside, text.toList = quote :: inside ∧ ∀ rest, quotedSpan quote false (inside ++ rest) = some (inside, rest)

theorem Encloses.oneToken (quotes : isQuote quote = true) (encloses : Encloses quote cs text) : OneToken quote text :=
  ⟨_, encloses, fun rest => by simpa using spanEscaped quotes cs rest⟩

theorem controlsEscaped (quotes : isQuote quote = true) (cs : List Char) :
    ∀ x ∈ controls, x ∉ escapeChars quote cs := by
  intro x control mem
  obtain ⟨c, _, inside⟩ := List.mem_flatMap.mp mem
  rcases escapeShape quotes c with ⟨m, other, pair⟩ | ⟨other, single⟩
  · rw [pair, List.mem_pair] at inside
    rcases inside with rfl | rfl
    · contradiction
    · exact other control
  · rw [single, List.mem_singleton] at inside
    subst inside
    exact other (by simp [control])

theorem Encloses.controls (quotes : isQuote quote = true) (encloses : Encloses quote cs text) :
    ∀ x ∈ controls, x ∉ text.toList := by
  intro x control mem
  rw [encloses, List.mem_cons, List.mem_append, List.mem_singleton] at mem
  rcases mem with rfl | inside | rfl
  · exact quoteVisible quotes control
  · exact controlsEscaped quotes cs x control inside
  · exact quoteVisible quotes control

end Tokens

section Distinct

theorem firstAlone (quotes : isQuote quote = true) (c : Char) : first (escapeChar quote c) = some (c, []) := by
  by_cases null : c = '\x00'
  · subst null
    rfl
  · simpa using firstEscaped quotes null []

theorem escapeSplit (quotes : isQuote quote = true) {d : Char} {xs ys : List Char}
    (same : escapeChar quote c ++ xs = escapeChar quote d ++ ys) : c = d ∧ xs = ys := by
  have parts : escapeChar quote c = escapeChar quote d ∧ xs = ys := by
    rcases escapeShape quotes c with ⟨m, _, left⟩ | ⟨marked, left⟩ <;>
      rcases escapeShape quotes d with ⟨k, _, right⟩ | ⟨other, right⟩ <;> rw [left, right] at same ⊢
    · simpa using same
    · exact absurd (List.mem_cons.mpr (.inl (List.cons.inj same).1.symm)) other
    · exact absurd (List.mem_cons.mpr (.inl (List.cons.inj same).1)) marked
    · simpa using same
  have firsts := firstAlone quotes c
  rw [parts.1, firstAlone quotes d] at firsts
  cases firsts
  exact ⟨rfl, parts.2⟩

theorem escapesApart (quotes : isQuote quote = true) (same : escapeChars quote cs = escapeChars quote ds) :
    cs = ds := by
  have shown (c : Char) (cs : List Char) : escapeChars quote (c :: cs) ≠ [] := by
    intro empty
    have longer := escapedLonger quotes (c :: cs)
    simp [empty] at longer
  induction cs generalizing ds with
  | nil =>
    cases ds with
    | nil => rfl
    | cons d ds => exact absurd same.symm (shown d ds)
  | cons c cs ih =>
    cases ds with
    | nil => exact absurd same (shown c cs)
    | cons d ds =>
      rw [escapeCharsCons, escapeCharsCons] at same
      obtain ⟨rfl, rest⟩ := escapeSplit quotes same
      rw [ih rest]

end Distinct

end Quoted

open Quoted

/-- An escaped string literal is read as the text that it was made from exactly if no octal digit stands behind a null
character there; otherwise it denotes fewer characters. A character literal is always read as its character. -/
theorem escapedLiteralsRead {p : Policy} {w : World} (reachable : w.Reachable p) {n : Nat} {a : Arena}
    (here : w.session.arenas[n]? = some a) :
    (∀ s : String, Makes (literalExpr (.string s)) a ("\"" ++ escapeString s ++ "\"") ∧
      ∃ ds, Quoted.read '\"' ("\"" ++ escapeString s ++ "\"") = some ds ∧ ds.length ≤ s.toList.length ∧
        (ds = s.toList ↔ NullsApart s.toList) ∧ (ds.length = s.toList.length ↔ NullsApart s.toList)) ∧
    ∀ c : Char, Makes (literalExpr (.char c)) a (quoteChar c) ∧ Quoted.read '\'' (quoteChar c) = some [c] := by
  have quiet := (reachable.regular here).settled.quiet
  refine ⟨fun s => ⟨makesOperand quiet (.literal (.string s)), (enclosesString s).read rfl⟩, fun c => ?_⟩
  obtain ⟨ds, read, _, same, _⟩ := (enclosesChar c).read rfl
  have alone : NullsApart [c] := nullsApartCons.mpr ⟨fun _ => nofun, nullsApartNil⟩
  exact ⟨makesOperand quiet (.literal (.char c)), same.mpr alone ▸ read⟩

theorem nullTakesDigit :
    Makes (literalExpr (.string "\x001")) (.new 0 .c) "\"\\01\"" ∧
      Quoted.read '\"' "\"\\01\"" = some ['\x01'] ∧ ¬ NullsApart "\x001".toList := by
  obtain ⟨strings, _⟩ :=
    escapedLiteralsRead (World.Reachable.start.grow (p := .strict) .c) (n := 0) (a := .new 0 .c) rfl
  obtain ⟨made, ds, read, _, same, _⟩ := strings "\x001"
  have written : "\"" ++ escapeString "\x001" ++ "\"" = "\"\\01\"" := by decide
  rw [written] at made read
  have found : Quoted.read '\"' "\"\\01\"" = some ['\x01'] := by decide
  refine ⟨made, found, fun apart => ?_⟩
  rw [found, same.mpr apart] at read
  exact absurd read (by decide)

/-- Whatever stands behind an escaped literal, it ends at its own quote; it has no control characters in it, so nothing
is continued there; and no two of them are alike. -/
theorem escapedLiteralsClose :
    (∀ s, OneToken '\"' ("\"" ++ escapeString s ++ "\"") ∧ (∀ x ∈ controls, x ∉ (escapeString s).toList) ∧
      continueLines (escapeString s) = escapeString s) ∧
    Function.Injective escapeString ∧
    (∀ c, OneToken '\'' (quoteChar c) ∧ (∀ x ∈ controls, x ∉ (quoteChar c).toList) ∧
      continueLines (quoteChar c) = quoteChar c) ∧
    Function.Injective quoteChar := by
  refine ⟨fun s => ?_, fun s t same => ?_, fun c => ?_, fun c d same => ?_⟩
  · have bare : ∀ x ∈ controls, x ∉ (escapeString s).toList := by
      simpa [escapeString] using controlsEscaped rfl s.toList
    exact ⟨(enclosesString s).oneToken rfl, bare, continueLinesFixed (bare _ (by decide))⟩
  · have quotes : isQuote '\"' = true := rfl
    exact String.toList_inj.mp (escapesApart quotes (String.ofList_injective same))
  · have bare := (enclosesChar c).controls rfl
    exact ⟨(enclosesChar c).oneToken rfl, bare, continueLinesFixed (bare _ (by decide))⟩
  · have whole := congrArg String.toList same
    rw [enclosesChar c, enclosesChar d] at whole
    simpa using escapesApart rfl (List.append_cancel_right (List.cons.inj whole).2)

end CSource
