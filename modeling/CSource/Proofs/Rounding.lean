import CSource.Proofs.Operands
import Mathlib

/-!
Fixed-point numbers are correctly rounded. The value of a finite word is that of the standard model of floating-point
numbers, and the text of the word denotes the multiple of the last decimal that is nearest to it, the even one where two
are equally near. The sign is that of the word, also where nothing but zeros is left.
-/

namespace CSource

open Build Number Float.Model

/-- The integer is nearest to the number, and even if another one is as near. -/
structure Nearest (x : ℚ) (n : ℤ) : Prop where
  near : ∀ m : ℤ, |x - n| ≤ |x - m|
  even : ∀ m : ℤ, m ≠ n → |x - m| = |x - n| → Even n

section Nearest

variable {x y part : ℚ} {m n : ℤ}

theorem Nearest.half (nearest : Nearest x n) : |x - n| ≤ 1 / 2 := by
  have above := nearest.near (n + 1)
  have below := nearest.near (n - 1)
  push_cast at above below
  rcases abs_cases (x - n) with ⟨size, side⟩ | ⟨size, side⟩
  · rcases abs_cases (x - (n + 1)) with ⟨other, _⟩ | ⟨other, _⟩ <;> linarith
  · rcases abs_cases (x - (n - 1)) with ⟨other, _⟩ | ⟨other, _⟩ <;> linarith

theorem nearestOfHalf (half : |x - n| ≤ 1 / 2) (even : |x - n| = 1 / 2 → Even n) : Nearest x n := by
  have further (m : ℤ) (other : m ≠ n) : 1 ≤ |x - m| + |x - n| := by
    have apart : (1 : ℚ) ≤ |(m : ℚ) - n| := by exact_mod_cast Int.one_le_abs (sub_ne_zero.mpr other)
    have triangle := abs_sub_le (m : ℚ) x n
    rw [abs_sub_comm (m : ℚ) x] at triangle
    linarith
  constructor
  · intro m
    by_cases same : m = n
    · rw [same]
    · linarith [further m same]
  · intro m other tie
    refine even (le_antisymm half ?_)
    linarith [further m other]

theorem nearestBelow (least : 0 ≤ part) (small : part ≤ 1 / 2) (even : part = 1 / 2 → Even n) :
    Nearest (n + part) n := by
  have error : |(n : ℚ) + part - n| = part := by rw [add_sub_cancel_left, abs_of_nonneg least]
  exact nearestOfHalf (error.trans_le small) fun tie => even (error.symm.trans tie)

theorem nearestAbove (less : part < 1) (large : 1 / 2 ≤ part) (odd : part = 1 / 2 → ¬ Even n) :
    Nearest (n + part) (n + 1) := by
  have error : |(n : ℚ) + part - (n + 1 : ℤ)| = 1 - part := by
    rw [abs_sub_comm, abs_of_nonneg] <;> push_cast <;> linarith
  exact nearestOfHalf (by linarith) fun tie => Int.even_add_one.mpr (odd (by linarith))

theorem Nearest.mono (first : Nearest x m) (second : Nearest y n) (le : x ≤ y) : m ≤ n := by
  by_contra less
  rw [not_le] at less
  have next : (n : ℚ) + 1 ≤ m := by exact_mod_cast less
  have low := (abs_le.mp first.half).1
  have high := (abs_le.mp second.half).2
  -- both numbers lie halfway between the two integers, which would both be even
  have bound : (m : ℚ) = n + 1 := by linarith
  obtain rfl : m = n + 1 := by exact_mod_cast bound
  have middle : x = n + 1 / 2 := by linarith
  obtain rfl : x = y := by linarith
  have tie : |x - n| = |x - (n + 1 : ℤ)| := by
    rw [middle, abs_sub_comm _ ((n + 1 : ℤ) : ℚ)]
    congr 1
    push_cast
    ring
  have even := first.even n (by omega) tie
  exact Int.even_add_one.mp even (second.even (n + 1) (by omega) tie.symm)

variable {num den : ℕ}

theorem roundDivNearest (positive : 0 < den) : Nearest (num / den) (roundDiv num den) := by
  have size : (0 : ℚ) < den := by exact_mod_cast positive
  have whole : (num : ℚ) / den = ((num / den : ℕ) : ℤ) + ((num % den : ℕ) : ℚ) / den := by
    have split : (num : ℚ) = den * (num / den : ℕ) + (num % den : ℕ) := by
      exact_mod_cast (Nat.div_add_mod num den).symm
    rw [div_eq_iff size.ne', add_mul, div_mul_cancel₀ _ size.ne', Int.cast_natCast]
    linarith
  have least : 0 ≤ ((num % den : ℕ) : ℚ) / den := div_nonneg (Nat.cast_nonneg _) size.le
  have most : ((num % den : ℕ) : ℚ) / den < 1 := (div_lt_one size).mpr (by exact_mod_cast Nat.mod_lt num positive)
  have below : ((num % den : ℕ) : ℚ) / den ≤ 1 / 2 ↔ 2 * (num % den) ≤ den := by
    rw [div_le_div_iff₀ size two_pos, one_mul, mul_comm]
    norm_cast
  have above : 1 / 2 ≤ ((num % den : ℕ) : ℚ) / den ↔ den ≤ 2 * (num % den) := by
    rw [div_le_div_iff₀ two_pos size, one_mul, mul_comm]
    norm_cast
  have tie (half : ((num % den : ℕ) : ℚ) / den = 1 / 2) : 2 * (num % den) = den :=
    le_antisymm (below.mp half.le) (above.mp half.ge)
  have even : Even ((num / den : ℕ) : ℤ) ↔ num / den % 2 = 0 := by rw [Int.even_coe_nat, Nat.even_iff]
  rw [whole]
  unfold roundDiv
  dsimp only
  split_ifs with low high parity
  · exact nearestBelow least (below.mpr low.le) fun half => absurd (tie half) low.ne
  · exact nearestAbove most (above.mpr high.le) fun half => absurd (tie half) high.ne'
  · exact nearestBelow least (below.mpr (not_lt.mp high)) fun _ => even.mpr parity
  · exact nearestAbove most (above.mpr (not_lt.mp low)) fun _ => mt even.mp parity

end Nearest

/-- A finite floating-point number. A zero has a sign too. -/
structure Exact where
  negative : Bool
  magnitude : ℚ
  least : 0 ≤ magnitude

def Exact.value (x : Exact) : ℚ := if x.negative then -x.magnitude else x.magnitude

def Exact.ofUnpacked : UnpackedFloat → Option Exact
  | .finite sign mantissa exponent _ => some ⟨sign == .negative, mantissa * 2 ^ exponent, by positivity⟩
  | .zero sign => some ⟨sign == .negative, 0, le_rfl⟩
  | .infinity _ | .notANumber => none

def Exact.ofBinary : Binary → Option Exact
  | .finite negative numerator scale => some ⟨negative, numerator / 2 ^ scale, by positivity⟩
  | .infinite _ | .notANumber => none

namespace Number.Layout

def ofFormat (format : Format) : Layout := ⟨format.exponentBits, format.mantissaBitsWithoutImplicit⟩

variable {format : Format} (word : BitVec format.numBits)

theorem unpackedFraction : (UnpackedFloat.unpackMantissa word).toNat = (ofFormat format).fraction word.toNat := by
  simp [UnpackedFloat.unpackMantissa_def, fraction, ofFormat, powerOfTwo]

theorem unpackedExponent : (UnpackedFloat.unpackExponent word).toNat = (ofFormat format).exponent word.toNat := by
  simp [UnpackedFloat.unpackExponent_def, exponent, ofFormat, powerOfTwo, Nat.shiftRight_eq_div_pow]

theorem unpackedSign :
    (UnpackedFloat.Sign.ofBitVec (UnpackedFloat.unpackSign word) == .negative) =
      (ofFormat format).negative word.toNat := by
  have bit : (UnpackedFloat.unpackSign word).toNat =
      word.toNat / powerOfTwo ((ofFormat format).fractionBits + (ofFormat format).exponentBits) % 2 := by
    simp [UnpackedFloat.unpackSign_def, ofFormat, powerOfTwo, Nat.shiftRight_eq_div_pow]
  rw [negative, ← bit]
  generalize UnpackedFloat.unpackSign word = sign
  revert sign
  decide

theorem implicitOne (fraction : BitVec format.mantissaBitsWithoutImplicit) :
    (1#1 ++ fraction).toNat = powerOfTwo format.mantissaBitsWithoutImplicit + fraction.toNat := by
  rw [BitVec.toNat_append, ← Nat.shiftLeft_add_eq_or_of_lt fraction.isLt]
  simp [powerOfTwo, Nat.shiftLeft_eq]

theorem scaledPower (e unit : Nat) : (2 : ℚ) ^ ((e : ℤ) - unit) = 2 ^ (e - unit) / 2 ^ (unit - e) := by
  rcases le_total unit e with le | le
  · rw [Nat.sub_eq_zero_of_le le, pow_zero, div_one, ← zpow_natCast, Nat.cast_sub le]
  · rw [Nat.sub_eq_zero_of_le le, pow_zero, one_div, ← zpow_natCast, Nat.cast_sub le, ← zpow_neg, neg_sub]

theorem finiteExact (negative : Bool) (significand e unit : Nat) :
    Exact.ofBinary (.finite negative (significand * powerOfTwo (e - unit)) (unit - e)) =
      some ⟨negative, significand * 2 ^ ((e : ℤ) - unit), by positivity⟩ := by
  simp [Exact.ofBinary, scaledPower, powerOfTwo, mul_div_assoc]

theorem decodedExact :
    Exact.ofBinary ((ofFormat format).decode word.toNat) = Exact.ofUnpacked (.unpack format word) := by
  have full : UnpackedFloat.unpackExponent word = -1#_ ↔
      (ofFormat format).exponent word.toNat = powerOfTwo (ofFormat format).exponentBits - 1 := by
    rw [← BitVec.toNat_inj, unpackedExponent, BitVec.neg_one_eq_allOnes, BitVec.toNat_allOnes]
    rfl
  have low : UnpackedFloat.unpackExponent word = 0#_ ↔ (ofFormat format).exponent word.toNat = 0 := by
    rw [← BitVec.toNat_inj, unpackedExponent, BitVec.toNat_zero]
  have none : UnpackedFloat.unpackMantissa word = 0#_ ↔ (ofFormat format).fraction word.toNat = 0 := by
    rw [← BitVec.toNat_inj, unpackedFraction, BitVec.toNat_zero]
  have unit : ((ofFormat format).unit : ℤ) = format.exponentBias + format.mantissaBitsWithoutImplicit := rfl
  unfold decode UnpackedFloat.unpack
  simp only [full, low, none]
  by_cases top : (ofFormat format).exponent word.toNat = powerOfTwo (ofFormat format).exponentBits - 1
  · simp only [if_pos top]
    split_ifs <;> rfl
  simp only [if_neg top, finiteExact, significand]
  by_cases subnormal : (ofFormat format).exponent word.toNat = 0
  · rw [if_pos subnormal, if_pos subnormal]
    split_ifs with zero
    · simp [Exact.ofUnpacked, unpackedSign, zero]
    · simp only [Exact.ofUnpacked, unpackedSign, unpackedFraction, unpackedExponent, subnormal, unit]
      congr 4
      omega
  · rw [if_neg subnormal, if_neg subnormal]
    have most : max ((ofFormat format).exponent word.toNat) 1 = (ofFormat format).exponent word.toNat := by omega
    simp only [Exact.ofUnpacked, unpackedSign, implicitOne, unpackedFraction, unpackedExponent, most, unit]
    rfl

end Number.Layout

section Digits

variable {n width : Nat} {c : Char}

theorem zeroUnpadded (zero : (Nat.toDigits 10 n).head? = some '0') : n = 0 := by
  induction n using Nat.strongRecOn with
  | _ n ih =>
    rw [Nat.toDigits_eq_if (by decide)] at zero
    split at zero
    · interval_cases n <;> first | rfl | exact absurd zero (by decide)
    · rw [List.head?_append_of_ne_nil _ Nat.toDigits_ne_nil] at zero
      have front := ih (n / 10) (by omega) zero
      omega

theorem paddedValue : Nat.ofDigitChars 10 (paddedDigits width n) 0 = n := by
  rw [paddedDigits, Nat.ofDigitChars_append, Nat.ofDigitChars_replicate_zero, Nat.mul_zero,
    Nat.ofDigitChars_ten_toDigits]

theorem paddedLength (given : 0 < width) (fits : n < 10 ^ width) : (paddedDigits width n).length = width := by
  have short : (Nat.toDigits 10 n).length ≤ width := (Nat.length_toDigits_le_iff (by decide) given).mpr fits
  rw [paddedDigits, List.length_append, List.length_replicate]
  omega

end Digits

/-- A number with six decimals, and with no zero in front that could be left out. -/
structure FixedPoint where
  negative : Bool
  whole : List Char
  decimals : List Char
  given : whole ≠ []
  digits : ∀ c ∈ whole ++ decimals, c.isDigit = true
  unpadded : whole.head? = some '0' → whole = ['0']
  six : decimals.length = 6

namespace FixedPoint

variable {f g : FixedPoint} {x y : Exact}

def text (f : FixedPoint) : String :=
  (if f.negative then "-" else "") ++ String.ofList (f.whole ++ '.' :: f.decimals)

def units (f : FixedPoint) : Nat := Nat.ofDigitChars 10 (f.whole ++ f.decimals) 0

def magnitude (f : FixedPoint) : ℚ := f.units / 10 ^ 6

def value (f : FixedPoint) : ℚ := if f.negative then -f.magnitude else f.magnitude

def ofUnits (negative : Bool) (n : Nat) : FixedPoint where
  negative := negative
  whole := Nat.toDigits 10 (n / unitsPerOne)
  decimals := paddedDigits places (n % unitsPerOne)
  given := Nat.toDigits_ne_nil
  digits c mem := by
    rcases List.mem_append.mp mem with whole | decimal
    · exact digitOfDecimal whole
    · exact digitOfPadded decimal
  unpadded zero := by rw [zeroUnpadded zero]; rfl
  six := paddedLength (by decide) (Nat.mod_lt n (by decide))

theorem unitsOfUnits (negative : Bool) (n : Nat) : (ofUnits negative n).units = n := by
  have six := (ofUnits negative n).six
  unfold units
  rw [Nat.ofDigitChars_append, Nat.ofDigitChars_eq_ofDigitChars_zero, six]
  simp only [ofUnits, paddedValue, Nat.ofDigitChars_ten_toDigits]
  exact Nat.div_add_mod n unitsPerOne

theorem dotApart (f : FixedPoint) : '.' ∉ f.whole ++ f.decimals :=
  fun mem => absurd (f.digits '.' mem) (by decide)

theorem textBegins (f : FixedPoint) : f.text.toList.head? = some '-' ↔ f.negative = true := by
  obtain ⟨c, cs, split⟩ := List.exists_cons_of_ne_nil f.given
  have digit := f.digits c (by simp [split])
  cases sign : f.negative with
  | true => simp [text, sign]
  | false =>
    have other : c ≠ '-' := by
      rintro rfl
      contradiction
    simp [text, sign, split, other]

theorem textInjective (same : f.text = g.text) : f = g := by
  have signs : f.negative = g.negative := by
    rw [Bool.eq_iff_iff, ← f.textBegins, ← g.textBegins, same]
  have chars : f.whole ++ '.' :: f.decimals = g.whole ++ '.' :: g.decimals := by
    simpa [text, signs] using congrArg String.toList same
  obtain ⟨left, right⟩ := not_or.mp (mt List.mem_append.mpr f.dotApart)
  obtain ⟨whole, _, decimals⟩ := (List.append_cons_inj_of_notMem left right).mp chars
  cases f
  cases g
  cases signs
  cases whole
  cases decimals
  rfl

/-- The number has the sign of the exact one, and of all multiples of the last decimal its magnitude is the nearest, or
the even one of the two that are nearest. -/
structure Rounds (f : FixedPoint) (x : Exact) : Prop where
  sign : f.negative = x.negative
  near : ∀ m : ℤ, |x.magnitude - f.magnitude| ≤ |x.magnitude - m / 10 ^ 6|
  even : ∀ m : ℤ, m ≠ f.units → |x.magnitude - m / 10 ^ 6| = |x.magnitude - f.magnitude| → Even f.units

theorem unitDistance (x : ℚ) (m : ℤ) : |x * 10 ^ 6 - m| = |x - m / 10 ^ 6| * 10 ^ 6 := by
  have positive : (0 : ℚ) < 10 ^ 6 := by norm_num
  calc |x * 10 ^ 6 - m| = |(x - m / 10 ^ 6) * 10 ^ 6| := by rw [sub_mul, div_mul_cancel₀ _ positive.ne']
    _ = |x - m / 10 ^ 6| * 10 ^ 6 := by rw [abs_mul, abs_of_pos positive]

theorem roundsIff : f.Rounds x ↔ f.negative = x.negative ∧ Nearest (x.magnitude * 10 ^ 6) f.units := by
  have positive : (0 : ℚ) < 10 ^ 6 := by norm_num
  have here : |x.magnitude * 10 ^ 6 - (f.units : ℤ)| = |x.magnitude - f.magnitude| * 10 ^ 6 :=
    unitDistance x.magnitude f.units
  have near (m : ℤ) : |x.magnitude * 10 ^ 6 - (f.units : ℤ)| ≤ |x.magnitude * 10 ^ 6 - m| ↔
      |x.magnitude - f.magnitude| ≤ |x.magnitude - m / 10 ^ 6| := by
    rw [here, unitDistance, mul_le_mul_iff_left₀ positive]
  have tie (m : ℤ) : |x.magnitude * 10 ^ 6 - m| = |x.magnitude * 10 ^ 6 - (f.units : ℤ)| ↔
      |x.magnitude - m / 10 ^ 6| = |x.magnitude - f.magnitude| := by
    rw [here, unitDistance, mul_left_inj' positive.ne']
  constructor
  · rintro ⟨sign, closest, even⟩
    exact ⟨sign, fun m => (near m).mpr (closest m),
      fun m other same => (Int.even_coe_nat _).mpr (even m other ((tie m).mp same))⟩
  · rintro ⟨sign, closest, even⟩
    exact ⟨sign, fun m => (near m).mp (closest m),
      fun m other same => (Int.even_coe_nat _).mp (even m other ((tie m).mpr same))⟩

theorem leastMagnitude (f : FixedPoint) : 0 ≤ f.magnitude := by
  unfold magnitude
  positivity

theorem Rounds.magnitudes (first : f.Rounds x) (second : g.Rounds y) (le : x.magnitude ≤ y.magnitude) :
    f.magnitude ≤ g.magnitude := by
  have scaled : x.magnitude * 10 ^ 6 ≤ y.magnitude * 10 ^ 6 := mul_le_mul_of_nonneg_right le (by norm_num)
  have units : f.units ≤ g.units := by
    exact_mod_cast (roundsIff.mp first).2.mono (roundsIff.mp second).2 scaled
  exact div_le_div_of_nonneg_right (by exact_mod_cast units) (by norm_num)

theorem Rounds.zero (rounds : f.Rounds x) (zero : x.magnitude = 0) : f.magnitude = 0 := by
  have near := rounds.near 0
  rw [zero] at near
  simpa using near

theorem Rounds.mono (first : f.Rounds x) (second : g.Rounds y) (le : x.value ≤ y.value) : f.value ≤ g.value := by
  have left := x.least
  have right := y.least
  unfold Exact.value at le
  unfold value
  rw [first.sign, second.sign]
  cases signs : x.negative <;> cases others : y.negative <;>
    simp only [signs, others, if_true, if_false, Bool.false_eq_true] at le ⊢
  · exact first.magnitudes second le
  · -- only zeros are at most a negative number here, and they are rounded to zeros
    rw [first.zero (by linarith), second.zero (by linarith), neg_zero]
  · linarith [f.leastMagnitude, g.leastMagnitude]
  · exact neg_le_neg (second.magnitudes first (neg_le_neg_iff.mp le))

theorem roundsFixed {b : Binary} (exact : Exact.ofBinary b = some x) :
    ∃ f : FixedPoint, f.text = b.fixed ∧ f.Rounds x := by
  cases b with
  | finite negative numerator scale =>
    cases exact
    have positive : 0 < powerOfTwo scale := Nat.pow_pos (by decide)
    have scaled : ((numerator * unitsPerOne : ℕ) : ℚ) / powerOfTwo scale = numerator / 2 ^ scale * 10 ^ 6 := by
      simp [unitsPerOne, places, powerOfTwo]
      ring
    refine ⟨ofUnits negative (roundedUnits numerator scale), rfl, roundsIff.mpr ⟨rfl, ?_⟩⟩
    rw [unitsOfUnits, ← scaled]
    exact roundDivNearest positive
  | _ => nomatch exact

end FixedPoint

/-- The literal of a finite word is a fixed-point number that is the correctly rounded value of the word. No two of
these have one text, and the greater word has not the smaller number. -/
theorem numbersRounded {p : Policy} {w : World} (reachable : w.Reachable p) {n : Nat} {a : Arena}
    (here : w.session.arenas[n]? = some a) :
    (∀ (word : UInt64) (x : Exact), Exact.ofUnpacked (.unpack .binary64 word.toBitVec) = some x →
      ∃ f : FixedPoint, f.Rounds x ∧ (Binary.ofWord64 word).fixed = f.text ∧
        Makes (literalExpr (.double word)) a f.text) ∧
    (∀ (word : UInt32) (x : Exact), Exact.ofUnpacked (.unpack .binary32 word.toBitVec) = some x →
      ∃ f : FixedPoint, f.Rounds x ∧ Makes (literalExpr (.float word)) a (f.text ++ "f")) ∧
    (∀ f g : FixedPoint, f.text = g.text → f = g) ∧
    ∀ (f g : FixedPoint) (x y : Exact), f.Rounds x → g.Rounds y → x.value ≤ y.value → f.value ≤ g.value := by
  have quiet := (reachable.regular here).settled.quiet
  refine ⟨fun word x exact => ?_, fun word x exact => ?_, fun _ _ => FixedPoint.textInjective,
    fun _ _ _ _ => FixedPoint.Rounds.mono⟩
  · have decoded : Exact.ofBinary (.ofWord64 word) = some x :=
      (@Layout.decodedExact .binary64 word.toBitVec).trans exact
    obtain ⟨f, written, rounds⟩ := FixedPoint.roundsFixed decoded
    exact ⟨f, rounds, written.symm, written ▸ makesOperand quiet (.literal (.double word))⟩
  · have decoded : Exact.ofBinary (.ofWord32 word) = some x :=
      (@Layout.decodedExact .binary32 word.toBitVec).trans exact
    obtain ⟨f, written, rounds⟩ := FixedPoint.roundsFixed decoded
    exact ⟨f, rounds, written ▸ makesOperand quiet (.literal (.float word))⟩

theorem halfRoundedToEven :
    ∃ f g : FixedPoint, Makes (literalExpr (.double 0x3F80000000000000)) (.new 0 .c) f.text ∧ f.text = "0.007812" ∧
      f.Rounds ⟨false, 1 / 128, by norm_num⟩ ∧ Makes (literalExpr (.float 0x80000001)) (.new 0 .c) (g.text ++ "f") ∧
      g.text ++ "f" = "-0.000000f" ∧ g.value ≤ f.value := by
  have started := World.Reachable.start.grow (p := .strict) .c
  have quiet := (started.regular (n := 0) (a := .new 0 .c) rfl).settled.quiet
  obtain ⟨doubles, floats, _, ordered⟩ := numbersRounded started (n := 0) (a := .new 0 .c) rfl
  have half : Exact.ofUnpacked (.unpack .binary64 (0x3F80000000000000 : UInt64).toBitVec) =
      some ⟨false, (4503599627370496 : ℕ) * 2 ^ (-59 : ℤ), by positivity⟩ := rfl
  have least : Exact.ofUnpacked (.unpack .binary32 (0x80000001 : UInt32).toBitVec) =
      some ⟨true, (1 : ℕ) * 2 ^ (-149 : ℤ), by positivity⟩ := rfl
  obtain ⟨f, rounds, _, made⟩ := doubles _ _ half
  obtain ⟨g, others, also⟩ := floats _ _ least
  have value : ((4503599627370496 : ℕ) : ℚ) * 2 ^ (-59 : ℤ) = 1 / 128 := by norm_num
  have text : (Literal.double 0x3F80000000000000).text .c = "0.007812" := by decide
  have sign : (Literal.float 0x80000001).text .c = "-0.000000f" := by decide
  refine ⟨f, g, made, (made.unique (makesOperand quiet (.literal _))).trans text, ?_, also,
    (also.unique (makesOperand quiet (.literal _))).trans sign, ordered g f _ _ others rounds ?_⟩
  · simpa only [value] using rounds
  · simp only [Exact.value]
    norm_num

end CSource
