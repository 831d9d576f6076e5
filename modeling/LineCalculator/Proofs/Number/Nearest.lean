import LineCalculator.Number.Binary64
import Mathlib.Algebra.Order.Field.Power
import Mathlib.Data.Int.Log
import Mathlib.Data.Rat.Floor
import Mathlib.Tactic.FieldSimp
import Mathlib.Tactic.Positivity

/-!
# The closest double of a quotient

Rounding looks at the quotient only and not at how it is written: the binary logarithm is the one of
the rational number, and scaling both sides moves neither the quotient of a division nor the half of
its remainder. A quotient that is the value of a finite pattern lies on that pattern's own grid, so
nothing is rounded and the pattern comes back.
-/

namespace LineCalculator.Binary64

variable {num den : Nat}

/-! ### The binary logarithm -/

/-- Shifting both sides of a comparison instead of multiplying one by a power of two. -/
theorem shiftLeft_le_shiftLeft_iff (hden : 0 < den) (place : Int) :
    den <<< place.toNat ≤ num <<< (-place).toNat ↔ (2 : ℚ) ^ place ≤ num / den := by
  have hpos : (0 : ℚ) < den := by exact_mod_cast hden
  rw [Nat.shiftLeft_eq, Nat.shiftLeft_eq, le_div_iff₀ hpos]
  obtain ⟨n, rfl | rfl⟩ := Int.eq_nat_or_neg place
  · have hnone : (-(n : Int)).toNat = 0 := by omega
    rw [hnone, Int.toNat_natCast, zpow_natCast, mul_comm]
    norm_cast
    rw [pow_zero, mul_one]
  · have hnone : (-(n : Int)).toNat = 0 := by omega
    rw [hnone, neg_neg, Int.toNat_natCast, zpow_neg, zpow_natCast, inv_mul_le_iff₀ (by positivity),
      mul_comm]
    norm_cast
    rw [pow_zero, one_mul, mul_comm num]

/-- The powers of two around a positive number. -/
theorem zpow_log2_le_and_lt {n : Nat} (h : 0 < n) :
    (2 : ℚ) ^ (n.log2 : Int) ≤ n ∧ (n : ℚ) < 2 ^ (n.log2 + 1 : Int) := by
  constructor
  · rw [zpow_natCast]
    exact_mod_cast Nat.log2_self_le h.ne'
  · rw [← Nat.cast_succ, zpow_natCast]
    exact_mod_cast Nat.lt_log2_self

theorem floorLog2_eq (hnum : 0 < num) (hden : 0 < den) :
    floorLog2 num den = Int.log 2 (num / den : ℚ) := by
  have hquotient : (0 : ℚ) < num / den := by positivity
  obtain ⟨hnum_le, hnum_lt⟩ := zpow_log2_le_and_lt hnum
  obtain ⟨hden_le, hden_lt⟩ := zpow_log2_le_and_lt hden
  -- The difference of the logarithms is right or one too large.
  have hlower : (2 : ℚ) ^ (num.log2 - den.log2 - 1 : Int) ≤ num / den := by
    rw [sub_sub, zpow_sub₀ two_ne_zero]
    gcongr
  have hupper : (num / den : ℚ) < 2 ^ (num.log2 - den.log2 + 1 : Int) := by
    rw [sub_add_eq_add_sub, zpow_sub₀ two_ne_zero]
    gcongr
  have hlower_log := (Int.zpow_le_iff_le_log Nat.one_lt_two hquotient).1 hlower
  have hupper_log := (Int.lt_zpow_iff_log_lt Nat.one_lt_two hquotient).1 hupper
  have htest := (shiftLeft_le_shiftLeft_iff hden (num.log2 - den.log2)).trans
    (Int.zpow_le_iff_le_log Nat.one_lt_two hquotient)
  rw [floorLog2]
  split
  next hle =>
    have hlog := htest.1 hle
    omega
  next hgt =>
    have hlog := fun h => hgt (htest.2 h)
    omega

/-! ### Rounding a quotient -/

theorem roundHalfEven_mul_left {factor : Nat} (h : 0 < factor) (num den : Nat) :
    roundHalfEven (factor * num) (factor * den) = roundHalfEven num den := by
  have htwice : 2 * (factor * (num % den)) = factor * (2 * (num % den)) := by
    rw [Nat.mul_left_comm]
  rw [roundHalfEven, roundHalfEven, Nat.mul_mod_mul_left, Nat.mul_div_mul_left _ _ h, htwice]
  simp only [Nat.mul_lt_mul_left h, Nat.mul_right_inj h.ne']

theorem roundHalfEven_mul_right (n : Nat) (h : 0 < den) : roundHalfEven (n * den) den = n := by
  rw [roundHalfEven, Nat.mul_mod_left, Nat.mul_div_left _ h]
  simp [h]

theorem nearest_mul_left {factor : Nat} (h : 0 < factor) (hden : 0 < den) (num : Nat) :
    nearest (factor * num) (factor * den) = nearest num den := by
  rcases Nat.eq_zero_or_pos num with rfl | hnum
  · simp [nearest]
  have hlog : floorLog2 (factor * num) (factor * den) = floorLog2 num den := by
    have hfactor : (factor : ℚ) ≠ 0 := by exact_mod_cast h.ne'
    rw [floorLog2_eq (Nat.mul_pos h hnum) (Nat.mul_pos h hden), floorLog2_eq hnum hden,
      Nat.cast_mul, Nat.cast_mul, mul_div_mul_left _ _ hfactor]
  rw [nearest, nearest, hlog, if_neg (Nat.mul_pos h hnum).ne', if_neg hnum.ne']
  simp only [Nat.shiftLeft_eq, Nat.mul_assoc, roundHalfEven_mul_left h]

/-- Equal quotients have the same closest double. -/
theorem nearest_congr {num' den' : Nat} (hden : 0 < den) (hden' : 0 < den')
    (h : num * den' = num' * den) : nearest num den = nearest num' den' := by
  rw [← nearest_mul_left hden' hden, ← nearest_mul_left hden hden', Nat.mul_comm den' num, h,
    Nat.mul_comm den den', Nat.mul_comm den num']

/-! ### The value of a pattern -/

variable {bits : Nat}

theorem significand_pos (h : bits ≠ 0) : 0 < significand bits := by
  unfold significand hiddenBit
  split <;> omega

theorem denominator_pos (bits : Nat) : 0 < denominator bits := by
  rw [denominator, Nat.one_shiftLeft]
  exact Nat.two_pow_pos _

theorem numerator_pos (h : bits ≠ 0) : 0 < numerator bits := by
  rw [numerator, Nat.shiftLeft_eq]
  exact Nat.mul_pos (significand_pos h) (Nat.two_pow_pos _)

theorem numerator_div_denominator (bits : Nat) :
    (numerator bits / denominator bits : ℚ) = significand bits * 2 ^ exponent bits := by
  rw [numerator, denominator, Nat.shiftLeft_eq, Nat.one_shiftLeft]
  obtain ⟨n, hn | hn⟩ := Int.eq_nat_or_neg (exponent bits)
  · have hnone : (-(n : Int)).toNat = 0 := by omega
    rw [hn, hnone, Int.toNat_natCast, zpow_natCast]
    simp
  · have hnone : (-(n : Int)).toNat = 0 := by omega
    rw [hn, hnone, neg_neg, Int.toNat_natCast, zpow_neg, zpow_natCast]
    simp [div_eq_mul_inv]

theorem floorLog2_numerator (h : bits ≠ 0) :
    floorLog2 (numerator bits) (denominator bits) = (significand bits).log2 + exponent bits := by
  obtain ⟨hle, hlt⟩ := zpow_log2_le_and_lt (significand_pos h)
  have hpos : (0 : ℚ) < significand bits * 2 ^ exponent bits := by
    have := significand_pos h
    positivity
  rw [floorLog2_eq (numerator_pos h) (denominator_pos bits), numerator_div_denominator]
  have hlower : (2 : ℚ) ^ ((significand bits).log2 + exponent bits) ≤
      significand bits * 2 ^ exponent bits := by
    rw [zpow_add₀ two_ne_zero]
    gcongr
  have hupper : significand bits * (2 : ℚ) ^ exponent bits <
      2 ^ ((significand bits).log2 + 1 + exponent bits) := by
    rw [zpow_add₀ two_ne_zero]
    gcongr
  have hlower_log := (Int.zpow_le_iff_le_log Nat.one_lt_two hpos).1 hlower
  have hupper_log := (Int.lt_zpow_iff_log_lt Nat.one_lt_two hpos).1 hupper
  omega

/-- The grid on which a quotient is rounded is the one of the pattern whose value it is. -/
theorem grid_numerator (h : bits ≠ 0) :
    max (-1074) (floorLog2 (numerator bits) (denominator bits) - 52) = exponent bits := by
  rw [floorLog2_numerator h, significand, exponent]
  split
  next hlt =>
    have hlog : bits.log2 < 52 := (Nat.log2_lt h).2 hlt
    omega
  next hge =>
    have hlog : (hiddenBit + bits % hiddenBit).log2 = 52 := by
      rw [Nat.log2_eq_iff (by simp [hiddenBit])]
      unfold hiddenBit
      omega
    have hfield : 1 ≤ bits / hiddenBit := Nat.div_pos (by omega) (by decide)
    omega

/-- The value of a finite pattern is rounded to that pattern. -/
theorem nearest_numerator (h : bits < infinity) :
    nearest (numerator bits) (denominator bits) = bits := by
  by_cases hzero : bits = 0
  · subst hzero
    rfl
  have hden := denominator_pos bits
  have hround : roundHalfEven (numerator bits <<< (-exponent bits).toNat)
      (denominator bits <<< (exponent bits).toNat) = significand bits := by
    rw [numerator, denominator, ← Nat.shiftLeft_add, ← Nat.shiftLeft_add, Nat.shiftLeft_eq,
      Nat.shiftLeft_eq, Nat.one_mul, Nat.add_comm (-exponent bits).toNat]
    exact roundHalfEven_mul_right _ (Nat.two_pow_pos _)
  rw [nearest, if_neg (numerator_pos hzero).ne']
  simp only [grid_numerator hzero, hround]
  have hpattern : (exponent bits + 1074).toNat * hiddenBit + significand bits = bits := by
    unfold exponent significand hiddenBit
    split
    next hlt => simp
    next hge => omega
  rw [hpattern, Nat.min_eq_right h.le]

end LineCalculator.Binary64
