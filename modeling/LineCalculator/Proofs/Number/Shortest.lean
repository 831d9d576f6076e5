import LineCalculator.Number.Shortest
import LineCalculator.Proofs.Number.Nearest

/-!
# The shortest decimal reads back

Whatever the search for few digits finds was read back while it was found, and when it finds nothing
the exact value is left, which lies on the grid of doubles. Further zeros behind the digits change
nothing, as long as the decimal is neither so large nor so small that it is settled without rounding.
-/

namespace LineCalculator.Decimal

open Binary64

variable {digits bits : Nat} {exponent : Int} {decimal : Decimal}

theorem magnitude_mk (digits : Nat) (exponent : Int) :
    magnitude ⟨digits, exponent⟩ =
      if digits = 0 then 0
      else if 310 < exponent then infinity
      else if exponent + digits.log2 < -400 then 0
      else nearest (digits * 10 ^ exponent.toNat) (10 ^ (-exponent).toNat) :=
  rfl

/-- Whether the closest double of a decimal is found by rounding, and not settled by its size. -/
structure Rounded (decimal : Decimal) : Prop where
  digits : decimal.digits ≠ 0
  large : decimal.exponent ≤ 310
  small : -400 ≤ decimal.exponent + decimal.digits.log2

theorem rounded_of_magnitude (hzero : decimal.magnitude ≠ 0) (hfinite : decimal.magnitude < infinity) :
    decimal.Rounded := by
  obtain ⟨digits, exponent⟩ := decimal
  rw [magnitude_mk] at hzero hfinite
  split at hzero
  next => exact absurd rfl hzero
  next hdigits =>
    rw [if_neg hdigits] at hfinite
    split at hzero
    next hlarge =>
      rw [if_pos hlarge] at hfinite
      exact absurd hfinite (lt_irrefl _)
    next hlarge =>
      split at hzero
      next => exact absurd rfl hzero
      next hsmall => exact ⟨hdigits, le_of_not_gt hlarge, le_of_not_gt hsmall⟩

theorem magnitude_eq_nearest (hdigits : digits ≠ 0) (hlarge : exponent ≤ 310)
    (hsmall : -400 ≤ exponent + digits.log2) :
    magnitude ⟨digits, exponent⟩ = nearest (digits * 10 ^ exponent.toNat) (10 ^ (-exponent).toNat) := by
  rw [magnitude_mk, if_neg hdigits, if_neg (by omega), if_neg (by omega)]

/-- Zeros behind the digits change nothing. -/
theorem magnitude_mul_pow (count : Nat) (hzero : magnitude ⟨digits, exponent⟩ = 0 → digits = 0)
    (hfinite : magnitude ⟨digits, exponent⟩ < infinity) :
    magnitude ⟨digits * 10 ^ count, exponent - count⟩ = magnitude ⟨digits, exponent⟩ := by
  by_cases hdigits : digits = 0
  · simp [magnitude_mk, hdigits]
  obtain ⟨-, hlarge, hsmall⟩ := rounded_of_magnitude (fun hnone => hdigits (hzero hnone)) hfinite
  dsimp only at hlarge hsmall
  have hlog : digits.log2 + count ≤ (digits * 10 ^ count).log2 := by
    rw [Nat.le_log2 (by positivity), pow_add]
    exact Nat.mul_le_mul (Nat.log2_self_le hdigits) (Nat.pow_le_pow_left (by decide) count)
  rw [magnitude_eq_nearest (by positivity) (by omega) (by omega),
    magnitude_eq_nearest hdigits hlarge hsmall]
  apply nearest_congr (by positivity) (by positivity)
  rw [mul_assoc, mul_assoc, mul_assoc, ← pow_add, ← pow_add, ← pow_add]
  congr 2
  omega

theorem digits_exact_zero : (exact 0).digits = 0 := by
  rw [exact]
  split <;> simp [numerator, significand, hiddenBit]

/-- All digits of a finite pattern read back as that pattern. -/
theorem magnitude_exact (h : bits < infinity) : (exact bits).magnitude = bits := by
  by_cases hzero : bits = 0
  · subst hzero
    rw [magnitude, if_pos digits_exact_zero]
  have hvalue := nearest_numerator h
  have hnumerator := numerator_pos hzero
  have hsignificand := significand_pos hzero
  by_cases hwhole : 0 ≤ Binary64.exponent bits
  · rw [exact, if_pos hwhole, magnitude_eq_nearest hnumerator.ne' (by decide) (by omega)]
    rw [denominator, Int.toNat_eq_zero.2 (by omega), Nat.one_shiftLeft] at hvalue
    simpa using hvalue
  · obtain ⟨places, hplaces⟩ := Int.eq_ofNat_of_zero_le (show 0 ≤ -Binary64.exponent bits by omega)
    have hexponent : Binary64.exponent bits = -(places : Int) := by omega
    have hdigits : 0 < significand bits * 5 ^ places := by positivity
    have hlog : places ≤ (significand bits * 5 ^ places).log2 := by
      rw [Nat.le_log2 hdigits.ne']
      calc
        2 ^ places ≤ 5 ^ places := Nat.pow_le_pow_left (by decide) places
        _ ≤ significand bits * 5 ^ places := Nat.le_mul_of_pos_left _ hsignificand
    rw [exact, if_neg hwhole, hplaces, Int.toNat_natCast, Nat.pow_eq,
      magnitude_eq_nearest hdigits.ne' (by omega) (by omega)]
    refine (nearest_congr (by positivity) (denominator_pos bits) ?_).trans hvalue
    rw [numerator, denominator, Nat.one_shiftLeft, hexponent, neg_neg, Int.toNat_natCast,
      Int.toNat_eq_zero.2 (by omega), Nat.shiftLeft_zero, pow_zero, mul_one, mul_assoc, ← mul_pow]
    rfl

/-! ### What the search finds -/

theorem magnitude_of_onGrid? {place : Int} (h : onGrid? bits place = some decimal) :
    decimal.magnitude = bits ∧ decimal.exponent = place := by
  unfold onGrid? at h
  dsimp only at h
  split at h
  next hbelow =>
    obtain rfl := Option.some.inj h
    exact ⟨hbelow.1, rfl⟩
  next =>
    split at h
    next habove =>
      obtain rfl := Option.some.inj h
      exact ⟨habove, rfl⟩
    next => cases h

/-- The shortest decimal comes from a grid or has all digits. -/
theorem shortest_cases (h : bits ≠ 0) :
    (∃ step < 20, onGrid? bits (startPlace bits - (step : Nat)) = some (shortest bits)) ∨
      shortest bits = exact bits := by
  rw [shortest, if_neg h]
  cases hfound : (List.range 20).findSome? fun (step : Nat) => onGrid? bits (startPlace bits - step) with
  | none => exact .inr rfl
  | some decimal =>
    obtain ⟨step, hmem, hgrid⟩ := List.exists_of_findSome?_eq_some hfound
    exact .inl ⟨step, List.mem_range.1 hmem, hgrid⟩

theorem shortest_zero : shortest 0 = ⟨0, 0⟩ :=
  rfl

theorem magnitude_shortest (h : bits < infinity) : (shortest bits).magnitude = bits := by
  by_cases hzero : bits = 0
  · subst hzero
    rfl
  rcases shortest_cases hzero with ⟨step, -, hgrid⟩ | hexact
  · exact (magnitude_of_onGrid? hgrid).1
  · rw [hexact, magnitude_exact h]

theorem digits_shortest_eq_zero (h : bits < infinity) (hzero : (shortest bits).magnitude = 0) :
    (shortest bits).digits = 0 := by
  rw [magnitude_shortest h] at hzero
  rw [hzero, shortest_zero]

/-- No digit is printed that stands for less than the last binary place of all doubles. -/
theorem le_exponent_shortest (bits : Nat) : -1074 ≤ (shortest bits).exponent := by
  by_cases hzero : bits = 0
  · subst hzero
    decide
  have hexponent : -1074 ≤ Binary64.exponent bits := by
    have hgrid := grid_numerator hzero
    omega
  rcases shortest_cases hzero with ⟨step, hstep, hgrid⟩ | hexact
  · have hlog := floorLog2_numerator hzero
    rw [(magnitude_of_onGrid? hgrid).2, startPlace]
    omega
  · rw [hexact, exact]
    split
    next => simp
    next => exact hexponent

end LineCalculator.Decimal
