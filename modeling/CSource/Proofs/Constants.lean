import CSource.Proofs.Rounding

/-!
Numeric constants. A reader of C takes a number for an optional sign and one constant, and gives an integer constant the
first type that its suffix allows and that can hold it. The literals of integers are read back with their type and value
but for the least ones of the signed types, whose magnitude no signed type of that size holds, and the literals of
floating-point numbers are constants exactly if the word is finite.
-/

namespace CSource

open Build Number Tokens Float.Model

inductive IntegerType where
  | int
  | unsigned
  | long
  | unsignedLong
  | longLong
  | unsignedLongLong
  deriving DecidableEq, Repr

inductive FloatingType where
  | float
  | double
  | longDouble
  deriving DecidableEq, Repr

def FloatingType.suffix : FloatingType → String
  | float => "f"
  | double => ""
  | longDouble => "l"

namespace IntegerType

def all : List IntegerType := [int, unsigned, long, unsignedLong, longLong, unsignedLongLong]

def isSigned : IntegerType → Bool
  | int | long | longLong => true
  | unsigned | unsignedLong | unsignedLongLong => false

def rank : IntegerType → Nat
  | int | unsigned => 0
  | long | unsignedLong => 1
  | longLong | unsignedLongLong => 2

def bits : IntegerType → Nat
  | int | unsigned => 32
  | long | unsignedLong | longLong | unsignedLongLong => 64

def greatest (t : IntegerType) : Nat := if t.isSigned then 2 ^ (t.bits - 1) - 1 else 2 ^ t.bits - 1

def least (t : IntegerType) : Int := if t.isSigned then -2 ^ (t.bits - 1) else 0

def suffix : IntegerType → String
  | int => ""
  | unsigned => "u"
  | long => "l"
  | unsignedLong => "ul"
  | longLong => "ll"
  | unsignedLongLong => "ull"

end IntegerType

structure IntegerConstant where
  radix : Nat
  value : Nat
  isUnsigned : Bool
  rank : Nat
  deriving DecidableEq, Repr

namespace IntegerConstant

/-- Only constants that are not decimal have unsigned types that they do not ask for. -/
def admits (c : IntegerConstant) (t : IntegerType) : Bool :=
  decide (c.rank ≤ t.rank) && if c.isUnsigned then !t.isSigned else t.isSigned || c.radix != 10

def type? (c : IntegerConstant) : Option IntegerType :=
  (IntegerType.all.filter c.admits).find? fun t => decide (c.value ≤ t.greatest)

/-- The type and the value of the constant behind its sign. Unsigned types wrap around. -/
def signed? (c : IntegerConstant) (negative : Bool) : Option (IntegerType × Int) :=
  c.type?.map fun t => (t, if negative then if t.isSigned then -c.value else -c.value % 2 ^ t.bits else c.value)

end IntegerConstant

inductive Constant where
  | integer (c : IntegerConstant)
  | floating (t : FloatingType)
  deriving DecidableEq, Repr

namespace Constant

def digitValue? (c : Char) : Option Nat :=
  if c.isDigit then some (c.toNat - '0'.toNat)
  else if 'a' ≤ c ∧ c ≤ 'f' then some (c.toNat - 'a'.toNat + 10)
  else if 'A' ≤ c ∧ c ≤ 'F' then some (c.toNat - 'A'.toNat + 10)
  else none

def isDigitIn (radix : Nat) (c : Char) : Bool := (digitValue? c).any fun v => decide (v < radix)

def numeral (radix : Nat) (digits : List Char) : Nat :=
  digits.foldl (fun n c => radix * n + (digitValue? c).getD 0) 0

/-- The suffixes of integer constants: whether the type is to be unsigned, and its least rank. -/
def integerSuffixes : List (String × Bool × Nat) :=
  let marks := ["u", "U"]
  let sizes := [("l", 1), ("L", 1), ("ll", 2), ("LL", 2)]
  ("", false, 0) :: marks.map (·, true, 0) ++ sizes.map (fun size => (size.1, false, size.2)) ++
    marks.flatMap fun mark => sizes.flatMap fun size =>
      [(mark ++ size.1, true, size.2), (size.1 ++ mark, true, size.2)]

def floatingSuffixes : List (String × FloatingType) :=
  [("", .double), ("f", .float), ("F", .float), ("l", .longDouble), ("L", .longDouble)]

def hexadecimal? : List Char → Option (List Char)
  | '0' :: 'x' :: rest | '0' :: 'X' :: rest => some rest
  | _ => none

def integerIn (radix : Nat) (cs : List Char) : Option IntegerConstant :=
  let digits := cs.takeWhile (isDigitIn radix)
  if digits = [] then none
  else (integerSuffixes.lookup (String.ofList (cs.dropWhile (isDigitIn radix)))).map fun (isUnsigned, rank) =>
    ⟨radix, numeral radix digits, isUnsigned, rank⟩

def integer? (cs : List Char) : Option IntegerConstant :=
  match hexadecimal? cs with
  | some rest => integerIn 16 rest
  | none => integerIn (if cs.head? = some '0' then 8 else 10) cs

/-- Whether there is an exponent, and what follows it. A mark without digits behind it is none and no suffix either. -/
def exponent? (marks : List Char) : List Char → Option (Bool × List Char)
  | [] => some (false, [])
  | c :: cs =>
    if marks.contains c then
      let digits := if cs.head? = some '+' ∨ cs.head? = some '-' then cs.tail else cs
      if digits.takeWhile Char.isDigit = [] then none else some (true, digits.dropWhile Char.isDigit)
    else some (false, c :: cs)

/-- A constant with a point or an exponent. Hexadecimal ones always have an exponent. -/
def floatingIn (radix : Nat) (marks cs : List Char) : Option FloatingType :=
  let whole := cs.takeWhile (isDigitIn radix)
  let rest := cs.dropWhile (isDigitIn radix)
  let dotted := rest.head? == some '.'
  let fraction := if dotted then rest.tail.takeWhile (isDigitIn radix) else []
  let later := if dotted then rest.tail.dropWhile (isDigitIn radix) else rest
  if whole ++ fraction = [] then none
  else do
    let (scaled, suffix) ← exponent? marks later
    if scaled || (dotted && radix == 10) then floatingSuffixes.lookup (String.ofList suffix) else none

def floating? (cs : List Char) : Option FloatingType :=
  match hexadecimal? cs with
  | some rest => floatingIn 16 ['p', 'P'] rest
  | none => floatingIn 10 ['e', 'E'] cs

def read (cs : List Char) : Option Constant :=
  (floating? cs).map floating <|> (integer? cs).map integer

def signed? (text : String) : Option (Bool × Constant) :=
  match text.toList with
  | '-' :: cs => (read cs).map (true, ·)
  | cs => (read cs).map (false, ·)

def evaluate? (text : String) : Option (IntegerType × Int) :=
  match signed? text with
  | some (negative, .integer c) => c.signed? negative
  | _ => none

section Reading

variable {c : Char} {ds rest : List Char}

theorem isDecimal : isDigitIn 10 c = c.isDigit := by
  unfold isDigitIn digitValue?
  split_ifs with digit lower upper
  · have bounds := Char.isDigit_iff_toNat.mp digit
    have zero : '0'.toNat = 48 := rfl
    have nine : '9'.toNat = 57 := rfl
    simp [digit]
    omega
  all_goals simp [digit]

theorem numeralDecimal (digits : ∀ c ∈ ds, c.isDigit = true) : numeral 10 ds = Nat.ofDigitChars 10 ds 0 := by
  rw [Nat.ofDigitChars_eq_foldl]
  refine List.foldl_ext _ _ _ fun n c mem => ?_
  rw [digitValue?, if_pos (digits c mem)]
  rfl

theorem decimalSpan (digits : ∀ c ∈ ds, c.isDigit = true) (stops : StopsAt Char.isDigit rest) :
    (ds ++ rest).takeWhile (isDigitIn 10) = ds ∧ (ds ++ rest).dropWhile (isDigitIn 10) = rest :=
  spanStops (fun c mem => isDecimal.trans (digits c mem)) fun c first => isDecimal.trans (stops c first)

theorem hexadecimalOther {cs : List Char} (other : cs.head? ≠ some '0') : hexadecimal? cs = none := by
  unfold hexadecimal?
  split <;> first | exact absurd rfl other | rfl

theorem integerStops (t : IntegerType) : StopsAt Char.isDigit t.suffix.toList := by
  cases t <;> rintro c ⟨⟩ <;> decide

theorem floatingStops (t : FloatingType) : StopsAt Char.isDigit t.suffix.toList := by
  cases t <;> rintro c ⟨⟩ <;> decide

theorem leadingZero {n : Nat} (given : n ≠ 0) : (Nat.toDigits 10 n ++ rest).head? ≠ some '0' := by
  rw [List.head?_append_of_ne_nil _ Nat.toDigits_ne_nil]
  exact mt zeroUnpadded given

theorem integerRead (n : Nat) (t : IntegerType) :
    read (Nat.toDigits 10 n ++ t.suffix.toList) =
      some (.integer ⟨if n = 0 then 8 else 10, n, !t.isSigned, t.rank⟩) := by
  by_cases zero : n = 0
  · subst zero
    cases t <;> decide
  have other : (Nat.toDigits 10 n ++ t.suffix.toList).head? ≠ some '0' := leadingZero zero
  have digits : ∀ c ∈ Nat.toDigits 10 n, c.isDigit = true := fun _ => digitOfDecimal
  obtain ⟨taken, left⟩ := decimalSpan digits (integerStops t)
  have undotted : (t.suffix.toList.head? == some '.') = false := by cases t <;> decide
  have unscaled : exponent? ['e', 'E'] t.suffix.toList = some (false, t.suffix.toList) := by cases t <;> decide
  have known : integerSuffixes.lookup t.suffix = some (!t.isSigned, t.rank) := by cases t <;> decide
  have whole : floating? (Nat.toDigits 10 n ++ t.suffix.toList) = none := by
    rw [floating?, hexadecimalOther other]
    simp [floatingIn, taken, left, undotted, unscaled]
  have found : integer? (Nat.toDigits 10 n ++ t.suffix.toList) = some ⟨10, n, !t.isSigned, t.rank⟩ := by
    rw [integer?, hexadecimalOther other]
    simp only [if_neg other, integerIn, taken, left, if_neg Nat.toDigits_ne_nil, String.ofList_toList, known,
      numeralDecimal digits, Nat.ofDigitChars_ten_toDigits]
    rfl
  rw [read, whole, found, if_neg zero]
  rfl

theorem floatingRead (f : FixedPoint) (t : FloatingType) :
    read (f.whole ++ '.' :: (f.decimals ++ t.suffix.toList)) = some (.floating t) := by
  have split := List.forall_mem_append.mp f.digits
  have pointed : StopsAt Char.isDigit ('.' :: (f.decimals ++ t.suffix.toList)) := stopsCons rfl
  obtain ⟨taken, left⟩ := decimalSpan split.1 pointed
  obtain ⟨fraction, later⟩ := decimalSpan split.2 (floatingStops t)
  have unscaled : exponent? ['e', 'E'] t.suffix.toList = some (false, t.suffix.toList) := by cases t <;> decide
  have known : floatingSuffixes.lookup t.suffix = some t := by cases t <;> decide
  have plain : hexadecimal? (f.whole ++ '.' :: (f.decimals ++ t.suffix.toList)) = none := by
    by_cases zero : f.whole.head? = some '0'
    · rw [f.unpadded zero]
      rfl
    · refine hexadecimalOther ?_
      rwa [List.head?_append_of_ne_nil _ f.given]
  have whole : floating? (f.whole ++ '.' :: (f.decimals ++ t.suffix.toList)) = some t := by
    rw [floating?, plain]
    simp [floatingIn, taken, left, fraction, later, unscaled, f.given, known]
  rw [read, whole]
  rfl

theorem signedDigits {k : Constant} (given : ds ≠ []) (digits : ∀ c ∈ ds, c.isDigit = true)
    (found : read (ds ++ rest) = some k) (negative : Bool) {text : String}
    (written : text.toList = (if negative then ['-'] else []) ++ (ds ++ rest)) :
    signed? text = some (negative, k) := by
  rw [signed?, written]
  cases negative with
  | true => simp [found]
  | false =>
    obtain ⟨c, cs, rfl⟩ := List.exists_cons_of_ne_nil given
    have other : c ≠ '-' := by
      rintro rfl
      exact absurd (digits '-' (List.mem_cons_self ..)) (by decide)
    simp_all

theorem integerSigned (v : Int) (t : IntegerType) :
    signed? (decimal v ++ t.suffix) =
      some (decide (v < 0), .integer ⟨if v.natAbs = 0 then 8 else 10, v.natAbs, !t.isSigned, t.rank⟩) := by
  refine signedDigits Nat.toDigits_ne_nil (fun _ => digitOfDecimal) (integerRead v.natAbs t) _ ?_
  cases v with
  | ofNat m => simp [decimal]
  | negSucc m => simp [decimal, Int.negSucc_lt_zero]

theorem fixedSigned (f : FixedPoint) (t : FloatingType) :
    signed? (f.text ++ t.suffix) = some (f.negative, .floating t) := by
  refine signedDigits f.given (List.forall_mem_append.mp f.digits).1 (floatingRead f t) _ ?_
  cases sign : f.negative <;> simp [FixedPoint.text, sign]

end Reading

end Constant

open Constant

section Types

variable {t : IntegerType} {v : Int}

theorem IntegerConstant.typed (t : IntegerType) (n : Nat) :
    type? ⟨if n = 0 then 8 else 10, n, !t.isSigned, t.rank⟩ = some t ↔ n ≤ t.greatest := by
  -- the first type that a suffix admits is the one that it is the suffix of
  have listed : ∃ others, IntegerType.all.filter (admits ⟨if n = 0 then 8 else 10, n, !t.isSigned, t.rank⟩) =
      t :: others := by
    by_cases zero : n = 0
    · rw [if_pos zero]
      cases t <;> exact ⟨_, rfl⟩
    · rw [if_neg zero]
      cases t <;> exact ⟨_, rfl⟩
  obtain ⟨others, first⟩ := listed
  have distinct : IntegerType.all.Nodup := by decide
  have once : t ∉ others := (List.nodup_cons.mp (first ▸ distinct.filter _)).1
  rw [type?, first]
  by_cases fits : n ≤ t.greatest
  · simp [fits]
  · have absent : others.find? (fun t => decide (n ≤ t.greatest)) ≠ some t :=
      fun found => once (List.mem_of_find?_eq_some found)
    simp [fits, absent]

theorem integerEvaluated (least : t.least ≤ v) :
    evaluate? (decimal v ++ t.suffix) = some (t, v) ↔ v.natAbs ≤ t.greatest := by
  rw [← IntegerConstant.typed t v.natAbs, evaluate?, integerSigned]
  have value : (if decide (v < 0) then if t.isSigned then -(v.natAbs : Int) else -v.natAbs % 2 ^ t.bits
      else v.natAbs) = v := by
    by_cases negative : v < 0
    · have signed : t.isSigned = true := by
        by_contra plain
        rw [IntegerType.least, if_neg plain] at least
        omega
      simp only [negative, signed, decide_true, if_true]
      omega
    · simp only [negative, decide_false, Bool.false_eq_true, if_false]
      omega
  show Option.map _ _ = _ ↔ _
  rw [Option.map_eq_some_iff]
  constructor
  · rintro ⟨other, found, same⟩
    cases congrArg Prod.fst same
    exact found
  · exact fun found => ⟨t, found, congrArg (Prod.mk t) value⟩

end Types

namespace Literal

def integer? : Literal → Option (IntegerType × Int)
  | int value => some (.int, value.toInt)
  | unsigned value => some (.unsigned, value.toNat)
  | long value => some (.long, value.toInt)
  | unsignedLong value => some (.unsignedLong, value.toNat)
  | longLong value => some (.longLong, value.toInt)
  | unsignedLongLong value => some (.unsignedLongLong, value.toNat)
  | _ => none

def floating? : Literal → Option (FloatingType × UnpackedFloat)
  | float word => some (.float, .unpack .binary32 word.toBitVec)
  | double word => some (.double, .unpack .binary64 word.toBitVec)
  | _ => none

variable {l : Literal} {t : IntegerType} {k : FloatingType} {u : UnpackedFloat} {v : Int} {d : Dialect} {x : Exact}

theorem integerText (given : l.integer? = some (t, v)) : l.text d = decimal v ++ t.suffix := by
  cases l <;> cases given <;> simp [text, IntegerType.suffix]

theorem integerRange (given : l.integer? = some (t, v)) : t.least ≤ v ∧ v ≤ t.greatest := by
  cases l with
  | int value =>
    cases given
    exact ⟨value.le_toInt, Int.le_of_lt_add_one value.toInt_lt⟩
  | unsigned value =>
    cases given
    exact ⟨Int.natCast_nonneg _, Int.ofNat_le.mpr (Nat.le_of_lt_succ value.toNat_lt)⟩
  | long value | longLong value =>
    cases given
    exact ⟨value.le_toInt, Int.le_of_lt_add_one value.toInt_lt⟩
  | unsignedLong value | unsignedLongLong value =>
    cases given
    exact ⟨Int.natCast_nonneg _, Int.ofNat_le.mpr (Nat.le_of_lt_succ value.toNat_lt)⟩
  | _ => cases given

theorem binaryText (given : l.floating? = some (k, u)) :
    ∃ b : Binary, l.text d = b.fixed ++ k.suffix ∧ Exact.ofBinary b = Exact.ofUnpacked u := by
  cases l with
  | float word =>
    cases given
    exact ⟨.ofWord32 word, rfl, @Layout.decodedExact .binary32 word.toBitVec⟩
  | double word =>
    cases given
    exact ⟨.ofWord64 word, by simp [text, FloatingType.suffix], @Layout.decodedExact .binary64 word.toBitVec⟩
  | _ => cases given

end Literal

section Literals

variable {l : Literal} {t : IntegerType} {k : FloatingType} {u : UnpackedFloat} {v : Int} {d : Dialect}

theorem literalEvaluated (given : l.integer? = some (t, v)) :
    (∃ c, signed? (l.text d) = some (decide (v < 0), .integer c) ∧ c.value = v.natAbs) ∧
      (evaluate? (l.text d) = some (t, v) ↔ v.natAbs ≤ t.greatest) ∧
      (t.greatest < v.natAbs ↔ t.isSigned = true ∧ v = t.least) := by
  obtain ⟨least, most⟩ := Literal.integerRange given
  rw [Literal.integerText given]
  refine ⟨⟨_, integerSigned v t, rfl⟩, integerEvaluated least, ?_⟩
  clear given
  cases t <;> simp [IntegerType.greatest, IntegerType.least, IntegerType.isSigned, IntegerType.bits] at * <;> omega

theorem literalFinite {x : Exact} (given : l.floating? = some (k, u)) (exact : Exact.ofUnpacked u = some x) :
    signed? (l.text d) = some (x.negative, .floating k) := by
  obtain ⟨b, written, same⟩ := Literal.binaryText (d := d) given
  obtain ⟨f, text, rounds⟩ := FixedPoint.roundsFixed (same.trans exact)
  rw [written, ← text, ← rounds.sign]
  exact fixedSigned f k

theorem literalInfinite (given : l.floating? = some (k, u)) (infinite : Exact.ofUnpacked u = none) :
    signed? (l.text d) = none ∧ ∃ name, isIdentifier name = true ∧ (l.text d = name ∨ l.text d = "-" ++ name) := by
  obtain ⟨b, written, same⟩ := Literal.binaryText (d := d) given
  rw [written]
  rw [infinite] at same
  cases b with
  | finite => nomatch same
  | notANumber => exact ⟨by cases k <;> decide, _, by cases k <;> decide, .inl rfl⟩
  | infinite negative =>
    refine ⟨by cases negative <;> cases k <;> decide, "inf" ++ k.suffix, by cases k <;> decide, ?_⟩
    cases negative with
    | false => exact .inl (by simp [Binary.fixed, sign])
    | true => exact .inr String.append_assoc

end Literals

/-- The literal of an integer is a sign and a constant, which has the type and the value of the literal unless it is the
least one of a signed type. The literal of a floating-point number is a sign and a constant of its type if the number is
finite, and a name otherwise. -/
theorem numericLiteralsRead {p : Policy} {w : World} (reachable : w.Reachable p) {n : Nat} {a : Arena}
    (here : w.session.arenas[n]? = some a) :
    (∀ l t v, Literal.integer? l = some (t, v) → ∃ text, Makes (literalExpr l) a text ∧
      (∃ c, signed? text = some (decide (v < 0), .integer c) ∧ c.value = v.natAbs) ∧
      (evaluate? text = some (t, v) ↔ v.natAbs ≤ t.greatest) ∧
      (t.greatest < v.natAbs ↔ t.isSigned = true ∧ v = t.least)) ∧
    ∀ l t u, Literal.floating? l = some (t, u) → ∃ text, Makes (literalExpr l) a text ∧
      (∀ x, Exact.ofUnpacked u = some x → signed? text = some (x.negative, .floating t)) ∧
      (Exact.ofUnpacked u = none → signed? text = none ∧
        ∃ name, isIdentifier name = true ∧ (text = name ∨ text = "-" ++ name)) := by
  have quiet := (reachable.regular here).settled.quiet
  refine ⟨fun l t v given => ?_, fun l t u given => ?_⟩
  · exact ⟨_, makesOperand quiet (.literal l), literalEvaluated given⟩
  · exact ⟨_, makesOperand quiet (.literal l), fun x => literalFinite given, literalInfinite given⟩

theorem infinityNoConstant :
    Makes (literalExpr (.double 0x7FF0000000000000)) (.new 0 .c) "inf" ∧ signed? "inf" = none ∧
      isIdentifier "inf" = true ∧ Makes (literalExpr (.int (-2147483648))) (.new 0 .c) "-2147483648" ∧
      evaluate? "-2147483648" = some (.long, -2147483648) ∧
      Makes (literalExpr (.long (-9223372036854775808))) (.new 0 .c) "-9223372036854775808l" ∧
      evaluate? "-9223372036854775808l" = none := by
  have started := World.Reachable.start.grow (p := .strict) .c
  obtain ⟨integers, floats⟩ := numericLiteralsRead started (n := 0) (a := .new 0 .c) rfl
  obtain ⟨infinity, written, _, unnamed⟩ := floats (.double 0x7FF0000000000000) _ _ rfl
  obtain ⟨least, made, _, typed, _⟩ := integers (.int (-2147483648)) _ _ rfl
  obtain ⟨longer, also, _, untyped, _⟩ := integers (.long (-9223372036854775808)) _ _ rfl
  have quiet := (started.regular (n := 0) (a := .new 0 .c) rfl).settled.quiet
  obtain rfl : infinity = "inf" := written.unique (makesOperand quiet (.literal (.double 0x7FF0000000000000)))
  obtain rfl : least = "-2147483648" := made.unique (makesOperand quiet (.literal (.int (-2147483648))))
  obtain rfl : longer = "-9223372036854775808l" :=
    also.unique (makesOperand quiet (.literal (.long (-9223372036854775808))))
  obtain ⟨none, _⟩ := unnamed rfl
  exact ⟨written, none, by decide, made, by decide, also, by decide⟩

end CSource
