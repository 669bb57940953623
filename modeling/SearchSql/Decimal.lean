/-!
# Exact decimal numbers

A number of the statement language is a decimal fraction that keeps its written precision:
`2.50` and `2.5` are equal in value but are different texts, and each is written back as it was
read.

## Main definitions

* `Decimal` : a sign, a coefficient of at most 96 bits and a scale of at most 28 fraction digits.
* `Decimal.toText` : the decimal notation of a number, with exactly `scale` fraction digits.
* `Decimal.ofDigits?`, `Decimal.ofText?` : read the notation back, without and with a sign.  Only
  the notation that `toText` writes is accepted: no superfluous leading zero, no point at the
  end.
* `Decimal.sameValue` : equality in value, whatever the scales.
-/

namespace SearchSql

/-- The most digits that a decimal has after its point. -/
def Decimal.maxScale : Nat := 28

/-- The coefficients of decimals lie below this bound, which is two to the power of 96. -/
def Decimal.coefficientBound : Nat := 79228162514264337593543950336

/-- A decimal fraction: `coefficient` divided by `10 ^ scale`, with a sign. -/
structure Decimal where
  /-- The number carries a minus sign. -/
  negative : Bool
  /-- The digits of the number, read without the point. -/
  coefficient : Nat
  /-- How many of the digits stand after the point. -/
  scale : Nat
  coefficient_lt : coefficient < Decimal.coefficientBound
  scale_le : scale ≤ Decimal.maxScale
deriving DecidableEq, Repr

namespace Decimal

/-! ### Writing -/

/-- The digits of the coefficient, with leading zeros up to one digit before the point. -/
def digits (d : Decimal) : List Char :=
  (Nat.toDigits 10 d.coefficient).leftpad (d.scale + 1) '0'

/-- The digits before the point. -/
def wholeDigits (d : Decimal) : List Char := d.digits.take (d.digits.length - d.scale)

/-- The digits after the point. -/
def fractionDigits (d : Decimal) : List Char := d.digits.drop (d.digits.length - d.scale)

/-- Digits before and after a point; without digits after it the point is left out. -/
def joinPoint (whole fraction : List Char) : List Char :=
  match fraction with
  | [] => whole
  | _ => whole ++ '.' :: fraction

/-- The notation of the absolute value of a number. -/
def unsignedChars (d : Decimal) : List Char := joinPoint d.wholeDigits d.fractionDigits

/-- The decimal notation of a number. -/
def toText (d : Decimal) : String :=
  String.ofList (if d.negative then '-' :: d.unsignedChars else d.unsignedChars)

/-! ### Reading -/

/-- The digits before the point are written without superfluous zeros: a zero stands first only
if it stands alone. -/
def isWhole (whole : List Char) : Bool :=
  match whole with
  | [] => false
  | ['0'] => true
  | c :: cs => c != '0' && (c :: cs).all Char.isDigit

/-- The number with the given digits before and after the point, if it is in range and written
without superfluous zeros. -/
def ofParts? (whole fraction : List Char) : Option Decimal :=
  if isWhole whole && fraction.all Char.isDigit then
    if h : fraction.length ≤ maxScale ∧
        Nat.ofDigitChars 10 (whole ++ fraction) 0 < coefficientBound then
      some ⟨false, Nat.ofDigitChars 10 (whole ++ fraction) 0, fraction.length, h.2, h.1⟩
    else none
  else none

/-- Read a number without a sign: digits, and after a point at least one more digit. -/
def ofDigits? (cs : List Char) : Option Decimal :=
  match cs.dropWhile Char.isDigit with
  | [] => ofParts? cs []
  | '.' :: c :: fraction => ofParts? (cs.takeWhile Char.isDigit) (c :: fraction)
  | _ => none

/-- Change the sign of a number. -/
def neg (d : Decimal) : Decimal := { d with negative := !d.negative }

/-- Read a number, with or without a minus sign. -/
def ofText? (s : String) : Option Decimal :=
  match s.toList with
  | '-' :: cs => (ofDigits? cs).map neg
  | cs => ofDigits? cs

/-! ### Value -/

/-- The coefficient with its sign. -/
def signedCoefficient (d : Decimal) : Int :=
  if d.negative then -d.coefficient else d.coefficient

/-- The two numbers have the same value: brought to a common scale, their coefficients agree. -/
def sameValue (d e : Decimal) : Bool :=
  d.signedCoefficient * Nat.pow 10 e.scale == e.signedCoefficient * Nat.pow 10 d.scale

end Decimal

end SearchSql
