import LineCalculator.Number.Decimal

/-!
# The shortest decimal of a double

Among the decimals that read back as a given double, the one with the fewest digits, and of those
the closest. Grids of multiples of powers of ten are tried from coarse to fine; on each only the two
neighbours of the value can be closest, and a neighbour counts when the reader itself takes it to
the double. So what is found reads back by construction, and the exact value of the double closes
the search.
-/

namespace LineCalculator.Decimal

/-- A place above the first decimal digit of a pattern's value, by a factor just over the decimal logarithm of two. -/
def startPlace (bits : Nat) : Int :=
  (Binary64.floorLog2 (Binary64.numerator bits) (Binary64.denominator bits) + 1) * 30103 / 100000 + 2

/-- The neighbour on the grid of multiples of `10 ^ place` that reads back as the pattern. If both do it is the closer one, and the upper one from half way between them. -/
def onGrid? (bits : Nat) (place : Int) : Option Decimal :=
  let num := Binary64.numerator bits * Nat.pow 10 (-place).toNat
  let den := Binary64.denominator bits * Nat.pow 10 place.toNat
  let below : Decimal := ⟨num / den, place⟩
  let above : Decimal := ⟨num / den + 1, place⟩
  if below.magnitude = bits ∧ (above.magnitude ≠ bits ∨ 2 * (num % den) < den) then some below
  else if above.magnitude = bits then some above
  else none

/-- The value of a pattern with all its digits. -/
def exact (bits : Nat) : Decimal :=
  let exponent := Binary64.exponent bits
  if 0 ≤ exponent then ⟨Binary64.numerator bits, 0⟩
  else ⟨Binary64.significand bits * Nat.pow 5 (-exponent).toNat, exponent⟩

/-- Seventeen digits tell all doubles apart, and at most three grids are tried before the place of the first of them. -/
def shortest (bits : Nat) : Decimal :=
  if bits = 0 then ⟨0, 0⟩
  else
    ((List.range 20).findSome? fun (step : Nat) => onGrid? bits (startPlace bits - step)).getD
      (exact bits)

end LineCalculator.Decimal
