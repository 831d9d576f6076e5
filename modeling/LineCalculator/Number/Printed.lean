import LineCalculator.Number.Shortest

/-!
# How numbers are printed

The shortest digits that read back, always with a fraction: in place when the first digit stands
between the fourth decimal and the sixteenth whole place, otherwise with one digit before the point
and an exponent without plus sign or padding. The sign of zero is kept.
-/

namespace LineCalculator

namespace Decimal

def intText (value : Int) : Text :=
  if value < 0 then '-' :: Nat.toDigits 10 value.natAbs else Nat.toDigits 10 value.natAbs

def zeros (count : Nat) : Text :=
  List.replicate count '0'

/-- Digits in place, the first of them at the place `leading`. -/
def positional (digits : Text) (leading exponent : Int) : Text :=
  if 0 ≤ exponent then digits ++ zeros exponent.toNat ++ ['.', '0']
  else if leading < 0 then ['0', '.'] ++ zeros (-leading - 1).toNat ++ digits
  else digits.take (leading + 1).toNat ++ ['.'] ++ digits.drop (leading + 1).toNat

/-- One digit, the point, the other digits and the exponent. -/
def scientific (digits : Text) (leading : Int) : Text :=
  let fraction := if digits.drop 1 = [] then ['0'] else digits.drop 1
  digits.take 1 ++ ['.'] ++ fraction ++ ['e'] ++ intText leading

def print (decimal : Decimal) : Text :=
  let digits := Nat.toDigits 10 decimal.digits
  let leading := decimal.exponent + digits.length - 1
  if -4 ≤ leading ∧ leading ≤ 15 then positional digits leading decimal.exponent
  else scientific digits leading

end Decimal

namespace Number

def print (value : Float) : Text :=
  let bits := Binary64.magnitude value
  if Binary64.infinity < bits then "NaN".toList
  else
    let sign := if Binary64.isNegative value then ['-'] else []
    let body := if bits = Binary64.infinity then "Infinity".toList else (Decimal.shortest bits).print
    sign ++ body

end Number

end LineCalculator
