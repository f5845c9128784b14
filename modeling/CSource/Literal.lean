import CSource.Dialect
import CSource.Number.Fixed
import CSource.Text.Escape

/-!
Literal values and their spelling. The truth values and the null pointer are spelled by dialect.
-/

namespace CSource

/-- A literal. Floating-point values are given as their words. -/
inductive Literal where
  | int (value : Int32)
  | unsigned (value : UInt32)
  | long (value : Int64)
  | unsignedLong (value : UInt64)
  | longLong (value : Int64)
  | unsignedLongLong (value : UInt64)
  | float (word : UInt32)
  | double (word : UInt64)
  | char (value : Char)
  /-- A string whose text stands between the quotes as it is. -/
  | verbatim (text : String)
  | string (text : String)
  | bool (value : Bool)
  | null
  deriving DecidableEq, Repr

def decimal (n : Int) : String :=
  match n with
  | .ofNat m => String.ofList (Nat.toDigits 10 m)
  | .negSucc m => String.ofList ('-' :: Nat.toDigits 10 (m + 1))

def Literal.text (dialect : Dialect) : Literal → String
  | int value => decimal value.toInt
  | unsigned value => decimal value.toNat ++ "u"
  | long value => decimal value.toInt ++ "l"
  | unsignedLong value => decimal value.toNat ++ "ul"
  | longLong value => decimal value.toInt ++ "ll"
  | unsignedLongLong value => decimal value.toNat ++ "ull"
  | float word => (Number.Binary.ofWord32 word).fixed ++ "f"
  | double word => (Number.Binary.ofWord64 word).fixed
  | char value => Text.quoteChar value
  | verbatim text => "\"" ++ text ++ "\""
  | string text => "\"" ++ Text.escapeString text ++ "\""
  | bool value =>
    match dialect, value with
    | .cxx, true => "true"
    | .cxx, false => "false"
    | .c, true => "1"
    | .c, false => "0"
  | null => if dialect.isCxx then "nullptr" else "((void*)0)"

end CSource
