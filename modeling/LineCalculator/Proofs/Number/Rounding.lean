import LineCalculator.Proofs.Number.Nearest

/-!
# Rounding keeps the order

A greater quotient is never rounded to a smaller pattern. On one grid that is so because a quotient
is rounded down or up to a neighbour. Where a greater quotient is rounded on a coarser grid, it has
reached the first significand with a leading bit there, and the smaller one has not passed the last
significand of its own grid; these two patterns are neighbours.
-/

namespace LineCalculator.Binary64

variable {num den num' den' : Nat}

/-! ### On one grid -/

theorem roundHalfEven_mono (den : Nat) (h : num ≤ num') :
    roundHalfEven num den ≤ roundHalfEven num' den := by
  have hdivision := Nat.div_add_mod num den
  have hdivision' := Nat.div_add_mod num' den
  rcases (Nat.div_le_div_right h : num / den ≤ num' / den).eq_or_lt with heq | hlt
  · -- With one quotient the remainders decide, and a half goes the same way for both.
    rw [← heq] at hdivision'
    have hrest : num % den ≤ num' % den := by omega
    rw [roundHalfEven, roundHalfEven, ← heq]
    split <;> split <;> omega
  · have hup : roundHalfEven num den ≤ num / den + 1 := by
      unfold roundHalfEven
      dsimp only
      split <;> omega
    have hdown : num' / den ≤ roundHalfEven num' den := by
      unfold roundHalfEven
      dsimp only
      split <;> omega
    omega

theorem le_roundHalfEven {n : Nat} (hden : 0 < den) (h : n * den ≤ num) :
    n ≤ roundHalfEven num den := by
  have hmono := roundHalfEven_mono den h
  rwa [roundHalfEven_mul_right n hden] at hmono

theorem roundHalfEven_le {n : Nat} (hden : 0 < den) (h : num ≤ n * den) :
    roundHalfEven num den ≤ n := by
  have hmono := roundHalfEven_mono den h
  rwa [roundHalfEven_mul_right n hden] at hmono

/-! ### From grid to grid -/

/-- The place of the last bit that a quotient's significand may have. -/
def grid (num den : Nat) : Int :=
  max (-1074) (floorLog2 num den - 52)

/-- A quotient on the grid of a place. -/
def roundedOn (place : Int) (num den : Nat) : Nat :=
  roundHalfEven (num <<< (-place).toNat) (den <<< place.toNat)

theorem nearest_eq (h : num ≠ 0) :
    nearest num den = min infinity
      ((grid num den + 1074).toNat * hiddenBit + roundedOn (grid num den) num den) := by
  rw [nearest, if_neg h]
  rfl

theorem shiftLeft_pos (h : 0 < den) (count : Nat) : 0 < den <<< count := by
  rw [Nat.shiftLeft_eq]
  positivity

theorem roundedOn_mono (den : Nat) (place : Int) (h : num ≤ num') :
    roundedOn place num den ≤ roundedOn place num' den := by
  apply roundHalfEven_mono
  rw [Nat.shiftLeft_eq, Nat.shiftLeft_eq]
  exact Nat.mul_le_mul_right _ h

/-- A quotient with a power of two in front of its denominator, on the grid of a place. -/
theorem two_pow_mul_le_shiftLeft_iff (hden : 0 < den) (place : Int) (count : Nat) :
    2 ^ count * (den <<< place.toNat) ≤ num <<< (-place).toNat ↔
      (2 : ℚ) ^ (place + count) ≤ num / den := by
  have hfactor : 0 < 2 ^ count * den := by positivity
  have hpower : (0 : ℚ) < 2 ^ (count : Int) := by positivity
  have hshift := @shiftLeft_le_shiftLeft_iff num _ hfactor place
  rw [Nat.shiftLeft_eq (2 ^ count * den), Nat.mul_assoc, ← Nat.shiftLeft_eq] at hshift
  rw [hshift, zpow_add₀ two_ne_zero, Nat.cast_mul, Nat.cast_pow, Nat.cast_ofNat, ← zpow_natCast,
    mul_comm ((2 : ℚ) ^ (count : Int)) den, ← div_div, le_div_iff₀ hpower]

/-- No quotient is rounded past the 53 bits of a significand on its grid. -/
theorem roundedOn_grid_le (hnum : 0 < num) (hden : 0 < den) :
    roundedOn (grid num den) num den ≤ 2 ^ 53 := by
  apply roundHalfEven_le (shiftLeft_pos hden _)
  by_contra hgt
  have hquotient : (0 : ℚ) < num / den := by positivity
  have hle := (two_pow_mul_le_shiftLeft_iff hden _ 53).1 (le_of_not_ge hgt)
  have hlog := (Int.zpow_le_iff_le_log Nat.one_lt_two hquotient).1 hle
  rw [← floorLog2_eq hnum hden] at hlog
  unfold grid at hlog
  omega

/-- On a grid that is not the finest one the significand has its leading bit. -/
theorem hiddenBit_le_roundedOn_grid (hnum : 0 < num) (hden : 0 < den) (h : -1074 < grid num den) :
    hiddenBit ≤ roundedOn (grid num den) num den := by
  apply le_roundHalfEven (shiftLeft_pos hden _)
  have hquotient : (0 : ℚ) < num / den := by positivity
  have hplace : grid num den + (52 : Nat) ≤ Int.log 2 (num / den : ℚ) := by
    rw [← floorLog2_eq hnum hden]
    unfold grid at h ⊢
    omega
  exact (two_pow_mul_le_shiftLeft_iff hden _ 52).2
    ((Int.zpow_le_iff_le_log Nat.one_lt_two hquotient).2 hplace)

theorem grid_mono (hnum : 0 < num) (hden : 0 < den) (h : num ≤ num') :
    grid num den ≤ grid num' den := by
  have hquotient : (0 : ℚ) < num / den := by positivity
  have hle : (num / den : ℚ) ≤ num' / den := by gcongr
  have hlog := Int.log_mono_right (b := 2) hquotient hle
  rw [grid, grid, floorLog2_eq hnum hden, floorLog2_eq (hnum.trans_le h) hden]
  omega

theorem nearest_mono (hden : 0 < den) (h : num ≤ num') : nearest num den ≤ nearest num' den := by
  rcases Nat.eq_zero_or_pos num with rfl | hnum
  · exact Nat.zero_le _
  have hnum' := hnum.trans_le h
  rw [nearest_eq hnum.ne', nearest_eq hnum'.ne']
  apply min_le_min_left
  have hfinest : -1074 ≤ grid num den := le_max_left _ _
  rcases (grid_mono hnum hden h).eq_or_lt with heq | hlt
  · rw [← heq]
    exact Nat.add_le_add_left (roundedOn_mono den _ h) _
  · have hlast := roundedOn_grid_le hnum hden
    have hfirst := hiddenBit_le_roundedOn_grid hnum' hden (hfinest.trans_lt hlt)
    have hplaces : (grid num den + 1074).toNat + 1 ≤ (grid num' den + 1074).toNat := by omega
    have hfields := Nat.mul_le_mul_right hiddenBit hplaces
    rw [Nat.add_mul, Nat.one_mul] at hfields
    have hdouble : 2 ^ 53 = hiddenBit + hiddenBit := rfl
    omega

theorem nearest_le_nearest (hden : 0 < den) (hden' : 0 < den')
    (h : (num / den : ℚ) ≤ num' / den') : nearest num den ≤ nearest num' den' := by
  have hpos : (0 : ℚ) < den := by exact_mod_cast hden
  have hpos' : (0 : ℚ) < den' := by exact_mod_cast hden'
  have hcross : den' * num ≤ den * num' := by
    rw [div_le_div_iff₀ hpos hpos'] at h
    rw [Nat.mul_comm den' num, Nat.mul_comm den num']
    exact_mod_cast h
  have hmono := nearest_mono (Nat.mul_pos hden' hden) hcross
  rwa [nearest_mul_left hden' hden, Nat.mul_comm den' den, nearest_mul_left hden hden'] at hmono

end LineCalculator.Binary64
