import LineCalculator.Number.Binary64
import LineCalculator.Text.Blank

/-!
# Decimals

`digits * 10 ^ exponent`, as it is written in a literal: digits with an optional point and an
optional exponent.
-/

namespace LineCalculator

structure Decimal where
  digits : Nat
  exponent : Int
deriving DecidableEq

namespace Decimal

/-- The pattern of the closest double. Exponents far outside the range of doubles are settled first, so that no huge power is computed for them. -/
def magnitude (decimal : Decimal) : Nat :=
  if decimal.digits = 0 then 0
  else if 310 < decimal.exponent then Binary64.infinity
  else if decimal.exponent + decimal.digits.log2 < -400 then 0
  else
    Binary64.nearest (decimal.digits * Nat.pow 10 decimal.exponent.toNat)
      (Nat.pow 10 (-decimal.exponent).toNat)

def readNat? (text : Text) : Option Nat :=
  if text ≠ [] ∧ text.all Char.isDigit then some (Nat.ofDigitChars 10 text 0) else none

def readInt? : Text → Option Int
  | '+' :: rest => (readNat? rest).map Int.ofNat
  | '-' :: rest => (readNat? rest).map fun value => -(value : Int)
  | text => (readNat? text).map Int.ofNat

/-- The exponent part, which may be missing. -/
def readExponent? : Text → Option Int
  | [] => some 0
  | mark :: rest => if mark = 'e' ∨ mark = 'E' then readInt? rest else none

/-- The digits after a point and the text after them. -/
def splitFraction : Text → Text × Text
  | '.' :: rest => (rest.takeWhile Char.isDigit, rest.dropWhile Char.isDigit)
  | text => ([], text)

/-- Reads a whole text as an unsigned decimal; the point needs a digit on one side only. -/
def read? (text : Text) : Option Decimal :=
  let whole := text.takeWhile Char.isDigit
  let (fraction, rest) := splitFraction (text.dropWhile Char.isDigit)
  if whole ++ fraction = [] then none
  else
    (readExponent? rest).map fun exponent =>
      { digits := Nat.ofDigitChars 10 (whole ++ fraction) 0, exponent := exponent - fraction.length }

end Decimal

end LineCalculator
