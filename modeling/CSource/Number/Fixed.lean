import CSource.Number.Binary

/-!
Fixed-point text: six decimals of the exact value, a half going to the even neighbour. The sign bit is kept also
where the digits are all zero.
-/

namespace CSource.Number

/-- The integer nearest to `num / den`, the even one of two that are equally near. -/
def roundDiv (num den : Nat) : Nat :=
  let q := num / den
  let r := num % den
  if 2 * r < den then q
  else if den < 2 * r then q + 1
  else if q % 2 = 0 then q
  else q + 1

def places : Nat := 6

def unitsPerOne : Nat := Nat.pow 10 places

/-- The decimal digits of `n`, with zeros in front up to `width`. -/
def paddedDigits (width n : Nat) : List Char :=
  let digits := Nat.toDigits 10 n
  List.replicate (width - digits.length) '0' ++ digits

/-- The text of a number given in units of the last place. -/
def decimalText (units : Nat) : String :=
  String.ofList (Nat.toDigits 10 (units / unitsPerOne) ++ '.' :: paddedDigits places (units % unitsPerOne))

/-- The magnitude `numerator / 2 ^ scale`, counted in units of the last place. -/
def roundedUnits (numerator scale : Nat) : Nat :=
  roundDiv (numerator * unitsPerOne) (powerOfTwo scale)

def sign (negative : Bool) : String := if negative then "-" else ""

def Binary.fixed : Binary → String
  | .notANumber => "NaN"
  | .infinite negative => sign negative ++ "inf"
  | .finite negative numerator scale => sign negative ++ decimalText (roundedUnits numerator scale)

end CSource.Number
