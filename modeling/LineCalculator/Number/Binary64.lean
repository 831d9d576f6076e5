/-!
# Doubles as bit patterns

A double without its sign is a natural number below `2 ^ 63`: the order of the patterns is the order
of the values, infinity comes after every finite value and the patterns above it are no numbers. A
finite pattern stands for `significand * 2 ^ exponent`, and `nearest` goes the other way, from a
quotient to the pattern of the closest double, a half going to the even neighbour.
-/

namespace LineCalculator.Binary64

def infinity : Nat := 0x7FF0000000000000

def notANumber : Nat := 0x7FF8000000000000

/-- The weight of the sign bit, `2 ^ 63`. -/
def signWeight : Nat := 0x8000000000000000

/-- The weight of the exponent field, `2 ^ 52`, which is also the leading bit that a significand does not store. -/
def hiddenBit : Nat := 0x10000000000000

def significand (bits : Nat) : Nat :=
  if bits < hiddenBit then bits else hiddenBit + bits % hiddenBit

def exponent (bits : Nat) : Int :=
  if bits < hiddenBit then -1074 else (bits / hiddenBit : Nat) - 1075

/-- Numerator of a finite pattern's value; it takes the power of two where that is whole. -/
def numerator (bits : Nat) : Nat :=
  significand bits <<< (exponent bits).toNat

def denominator (bits : Nat) : Nat :=
  1 <<< (-exponent bits).toNat

/-- The natural number closest to a quotient, a half going to the even one. -/
def roundHalfEven (num den : Nat) : Nat :=
  let twice := 2 * (num % den)
  if twice < den ∨ twice = den ∧ num / den % 2 = 0 then num / den else num / den + 1

/-- The exponent of the power of two that a positive quotient reaches and does not double. -/
def floorLog2 (num den : Nat) : Int :=
  let guess : Int := num.log2 - den.log2
  if den <<< guess.toNat ≤ num <<< (-guess).toNat then guess else guess - 1

/-- The pattern closest to a quotient. A significand rounded up to `2 ^ 53` carries into the exponent field, and whatever passes the largest finite double is infinity. -/
def nearest (num den : Nat) : Nat :=
  if num = 0 then 0
  else
    let grid := max (-1074) (floorLog2 num den - 52)
    let rounded := roundHalfEven (num <<< (-grid).toNat) (den <<< grid.toNat)
    min infinity ((grid + 1074).toNat * hiddenBit + rounded)

/-- The double with a given pattern and sign. -/
def toFloat (negative : Bool) (bits : Nat) : Float :=
  Float.ofBits (UInt64.ofNat (if negative then signWeight + bits else bits))

/-- The pattern of a double without its sign. -/
def magnitude (value : Float) : Nat :=
  value.toBits.toNat % signWeight

def isNegative (value : Float) : Bool :=
  signWeight ≤ value.toBits.toNat

end LineCalculator.Binary64
