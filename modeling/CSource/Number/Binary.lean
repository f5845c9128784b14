/-!
Binary floating-point words. A finite word denotes `± numerator / 2 ^ scale` exactly; no floating-point
operation takes part.
-/

namespace CSource.Number

def powerOfTwo (n : Nat) : Nat := Nat.pow 2 n

/-- The widths of the fields of a floating-point word: sign, exponent, fraction from the top down. -/
structure Layout where
  exponentBits : Nat
  fractionBits : Nat
  deriving DecidableEq, Repr

def binary64 : Layout := ⟨11, 52⟩

def binary32 : Layout := ⟨8, 23⟩

/-- What a word denotes. A finite value is `numerator / 2 ^ scale`, negated when `negative`. -/
inductive Binary where
  | notANumber
  | infinite (negative : Bool)
  | finite (negative : Bool) (numerator scale : Nat)
  deriving DecidableEq, Repr

namespace Layout

def fraction (l : Layout) (word : Nat) : Nat := word % powerOfTwo l.fractionBits

def exponent (l : Layout) (word : Nat) : Nat := word / powerOfTwo l.fractionBits % powerOfTwo l.exponentBits

def negative (l : Layout) (word : Nat) : Bool :=
  word / powerOfTwo (l.fractionBits + l.exponentBits) % 2 == 1

/-- The exponent field at which the significand is an integer: a field `e` scales it by `2 ^ (e - unit)`. -/
def unit (l : Layout) : Nat := powerOfTwo (l.exponentBits - 1) - 1 + l.fractionBits

/-- The significand of a finite word: the leading one is left out of the word unless the exponent field is zero. -/
def significand (l : Layout) (word : Nat) : Nat :=
  if l.exponent word = 0 then l.fraction word else powerOfTwo l.fractionBits + l.fraction word

def decode (l : Layout) (word : Nat) : Binary :=
  if l.exponent word = powerOfTwo l.exponentBits - 1 then
    if l.fraction word = 0 then .infinite (l.negative word) else .notANumber
  else
    let e := max (l.exponent word) 1
    .finite (l.negative word) (l.significand word * powerOfTwo (e - l.unit)) (l.unit - e)

end Layout

def Binary.ofWord64 (word : UInt64) : Binary := binary64.decode word.toNat

def Binary.ofWord32 (word : UInt32) : Binary := binary32.decode word.toNat

end CSource.Number
