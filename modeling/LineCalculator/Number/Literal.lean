import LineCalculator.Number.Decimal

/-!
# Number literals

An optional sign and then a decimal, or one of the words for infinity and for no number in any case.
This is the full literal; the numbers that the lexer cuts out of a line are its unsigned forms
without exponent.
-/

namespace LineCalculator.Number

/-- The pattern of an unsigned literal. -/
def readMagnitude? (text : Text) : Option Nat :=
  let word := text.map Char.toLower
  if word = "inf".toList ∨ word = "infinity".toList then some Binary64.infinity
  else if word = "nan".toList then some Binary64.notANumber
  else (Decimal.read? text).map Decimal.magnitude

/-- Reads a whole text as a literal, correctly rounded. -/
def read? : Text → Option Float
  | '+' :: rest => (readMagnitude? rest).map (Binary64.toFloat false)
  | '-' :: rest => (readMagnitude? rest).map (Binary64.toFloat true)
  | text => (readMagnitude? text).map (Binary64.toFloat false)

end LineCalculator.Number
