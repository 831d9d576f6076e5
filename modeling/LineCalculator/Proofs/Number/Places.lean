import LineCalculator.Proofs.Number.Notation
import LineCalculator.Proofs.Number.Order
import LineCalculator.Proofs.Number.Rounding

/-!
# The place of the first digit

How a number is printed depends on the place of its first digit, and the place of the first digit of
its shortest decimal is the number's own: it lies below a power of ten when the number is less than
the double of that power. Rounding keeps the order, so what is left to know is that the double of the
power is itself printed with one digit in that place.
-/

namespace LineCalculator

namespace Decimal

open Binary64

variable {left right decimal : Decimal} {bits : Nat} {place : Int}

/-! ### Values -/

def value (decimal : Decimal) : ℚ :=
  decimal.digits * 10 ^ decimal.exponent

theorem quotient_eq_value (decimal : Decimal) :
    ((decimal.digits * 10 ^ decimal.exponent.toNat : Nat) / (10 ^ (-decimal.exponent).toNat : Nat) : ℚ) =
      decimal.value := by
  rw [value]
  obtain ⟨n, hn | hn⟩ := Int.eq_nat_or_neg decimal.exponent
  · have hnone : (-(n : Int)).toNat = 0 := by omega
    rw [hn, hnone, Int.toNat_natCast, zpow_natCast]
    simp
  · have hnone : (-(n : Int)).toNat = 0 := by omega
    rw [hn, hnone, neg_neg, Int.toNat_natCast, zpow_neg, zpow_natCast]
    simp [div_eq_mul_inv]

theorem magnitude_le_magnitude (hleft : left.Rounded) (hright : right.Rounded)
    (h : left.value ≤ right.value) : left.magnitude ≤ right.magnitude := by
  rw [← quotient_eq_value, ← quotient_eq_value] at h
  rw [magnitude_eq_nearest hleft.digits hleft.large hleft.small,
    magnitude_eq_nearest hright.digits hright.large hright.small]
  exact nearest_le_nearest (by positivity) (by positivity) h

/-! ### First digits -/

/-- The place of the first digit. -/
def leading (decimal : Decimal) : Int :=
  decimal.exponent + (Nat.toDigits 10 decimal.digits).length - 1

theorem print_eq (decimal : Decimal) :
    decimal.print =
      if -4 ≤ decimal.leading ∧ decimal.leading ≤ 15 then
        positional (Nat.toDigits 10 decimal.digits) decimal.leading decimal.exponent
      else scientific (Nat.toDigits 10 decimal.digits) decimal.leading :=
  rfl

theorem pow_le_and_lt_of_length_toDigits {n count : Nat} (h : n ≠ 0)
    (hlength : (Nat.toDigits 10 n).length = count + 1) : 10 ^ count ≤ n ∧ n < 10 ^ (count + 1) := by
  have hten : 1 < 10 := by decide
  constructor
  · rcases Nat.eq_zero_or_pos count with rfl | hpos
    · exact Nat.pos_of_ne_zero h
    · by_contra hlt
      have hshort := (Nat.length_toDigits_le_iff hten hpos).2 (lt_of_not_ge hlt)
      omega
  · exact (Nat.length_toDigits_le_iff hten (Nat.succ_pos count)).1 hlength.le

theorem zpow_leading_le_and_lt (h : decimal.digits ≠ 0) :
    (10 : ℚ) ^ decimal.leading ≤ decimal.value ∧ decimal.value < 10 ^ (decimal.leading + 1) := by
  have hsome : (Nat.toDigits 10 decimal.digits).length ≠ 0 := by simp [Nat.toDigits_ne_nil]
  obtain ⟨count, hcount⟩ := Nat.exists_eq_succ_of_ne_zero hsome
  obtain ⟨hlower, hupper⟩ := pow_le_and_lt_of_length_toDigits h hcount
  have hplace : decimal.leading = (count : Int) + decimal.exponent := by
    rw [leading, hcount]
    omega
  have hplace' : decimal.leading + 1 = ((count + 1 : Nat) : Int) + decimal.exponent := by
    rw [hplace]
    omega
  have hten : (10 : ℚ) ≠ 0 := by norm_num
  rw [hplace', hplace, zpow_add₀ hten, zpow_add₀ hten, zpow_natCast, zpow_natCast, value]
  constructor
  · gcongr
    exact_mod_cast hlower
  · gcongr
    exact_mod_cast hupper

theorem value_power (place : Int) : value ⟨1, place⟩ = 10 ^ place := by
  rw [value, Nat.cast_one, one_mul]

theorem leading_power (place : Int) : leading ⟨1, place⟩ = place := by
  have hone : (Nat.toDigits 10 1).length = 1 := rfl
  change place + ((Nat.toDigits 10 1).length : Int) - 1 = place
  rw [hone]
  omega

/-- The shortest decimal of a number starts below the place of a power of ten when the number is less than its double. -/
theorem leading_shortest_lt_iff (hlarge : place ≤ 310) (hsmall : -400 ≤ place)
    (hpower : shortest (magnitude ⟨1, place⟩) = ⟨1, place⟩) (hzero : bits ≠ 0)
    (hfinite : bits < infinity) :
    (shortest bits).leading < place ↔ bits < magnitude ⟨1, place⟩ := by
  have hbits := magnitude_shortest hfinite
  have hrounded : (shortest bits).Rounded := by
    apply rounded_of_magnitude <;> rwa [hbits]
  have hrounded' : Rounded ⟨1, place⟩ :=
    ⟨Nat.one_ne_zero, hlarge, hsmall.trans (le_add_of_nonneg_right (Int.natCast_nonneg _))⟩
  obtain ⟨hlower, hupper⟩ := zpow_leading_le_and_lt hrounded.digits
  constructor
  · intro hlt
    have hvalue : (shortest bits).value ≤ value ⟨1, place⟩ := by
      rw [value_power]
      exact hupper.le.trans (zpow_le_zpow_right₀ (by norm_num) (by omega))
    have hle := magnitude_le_magnitude hrounded hrounded' hvalue
    rw [hbits] at hle
    refine hle.lt_of_ne fun heq => ?_
    rw [heq, hpower, leading_power] at hlt
    exact lt_irrefl _ hlt
  · intro hlt
    by_contra hge
    have hvalue : value ⟨1, place⟩ ≤ (shortest bits).value := by
      rw [value_power]
      exact (zpow_le_zpow_right₀ (by norm_num) (le_of_not_gt hge)).trans hlower
    have hle := magnitude_le_magnitude hrounded' hrounded hvalue
    rw [hbits] at hle
    omega

/-! ### Where an exponent is printed -/

theorem e_not_mem_toDigits (n : Nat) : 'e' ∉ Nat.toDigits 10 n :=
  Number.not_mem_of_isDigits (isDigits_toDigits n) rfl

theorem e_mem_print_iff (decimal : Decimal) :
    'e' ∈ decimal.print ↔ ¬ (-4 ≤ decimal.leading ∧ decimal.leading ≤ 15) := by
  have hdigits := e_not_mem_toDigits decimal.digits
  have hzeros : ∀ count, 'e' ∉ zeros count := fun count hmem => by
    cases isDigit_of_mem_zeros hmem
  rw [print_eq]
  split
  next hplace =>
    have hpositional : 'e' ∉ positional (Nat.toDigits 10 decimal.digits) decimal.leading
        decimal.exponent := by
      have htake : ∀ count, 'e' ∉ (Nat.toDigits 10 decimal.digits).take count :=
        fun _ hmem => hdigits (List.mem_of_mem_take hmem)
      have hdrop : ∀ count, 'e' ∉ (Nat.toDigits 10 decimal.digits).drop count :=
        fun _ hmem => hdigits (List.mem_of_mem_drop hmem)
      rw [positional]
      split
      · simp [hdigits, hzeros]
      · split
        · simp [hdigits, hzeros]
        · simp [htake, hdrop]
    exact iff_of_false hpositional (not_not_intro hplace)
  next hplace => exact iff_of_true (by simp [scientific]) hplace

end Decimal

namespace Number

open Binary64

variable {value : Float}

theorem isFinite_eq (value : Float) : value.isFinite = decide (magnitude value < infinity) := by
  change (Float.Model.UnpackedFloat.unpack .binary64 value.toBits.toBitVec).isFinite = _
  rcases Nat.lt_or_ge infinity (magnitude value) with hnan | hle
  · have hvalue : value.isNaN = true := by
      rw [(isInf_eq_and_isNaN_eq value).2, decide_eq_true hnan]
    change (Float.Model.UnpackedFloat.unpack .binary64 value.toBits.toBitVec).isNaN = true at hvalue
    rw [decide_eq_false (by omega)]
    generalize Float.Model.UnpackedFloat.unpack .binary64 value.toBits.toBitVec = unpacked at *
    cases unpacked with
    | notANumber => rfl
    | infinity | zero | finite => cases hvalue
  · have hstands := stands_unpack hle
    generalize magnitude value = bits at *
    generalize Float.Model.UnpackedFloat.unpack .binary64 value.toBits.toBitVec = unpacked at *
    have hinfinity : infinity = (2 ^ 11 - 1) * 2 ^ 52 := rfl
    cases hstands with
    | zero => rfl
    | subnormal | normal => exact (decide_eq_true (by omega)).symm
    | infinity => rfl

/-- A finite number is printed with an exponent when it is not zero and small or large enough. -/
theorem e_mem_print_iff (h : value.isFinite = true) :
    'e' ∈ print value ↔ 0 < value.abs ∧ ¬ (1e-4 ≤ value.abs ∧ value.abs < 1e16) := by
  rw [isFinite_eq, decide_eq_true_eq] at h
  obtain ⟨hmagnitude, hsign⟩ := magnitude_abs h.le
  have habs : magnitude value.abs ≤ infinity := hmagnitude.trans_le h.le
  have hzero : 0 < value.abs ↔ 0 < magnitude value := by
    rw [lt_iff_magnitude_lt (by decide +kernel) hsign (by decide +kernel) habs, hmagnitude]
    rfl
  have hsmall : 1e-4 ≤ value.abs ↔ Decimal.magnitude ⟨1, -4⟩ ≤ magnitude value := by
    have hbound : magnitude 1e-4 = Decimal.magnitude ⟨1, -4⟩ := by decide +kernel
    rw [le_iff_magnitude_le (by decide +kernel) hsign (by decide +kernel) habs, hmagnitude, hbound]
  have hlarge : value.abs < 1e16 ↔ magnitude value < Decimal.magnitude ⟨1, 16⟩ := by
    have hbound : magnitude 1e16 = Decimal.magnitude ⟨1, 16⟩ := by decide +kernel
    rw [lt_iff_magnitude_lt hsign (by decide +kernel) habs (by decide +kernel), hmagnitude, hbound]
  have hfront : 'e' ∉ signText (isNegative value) := by cases isNegative value <;> decide
  rw [hzero, hsmall, hlarge, print_of_lt h, List.mem_append, or_iff_right hfront,
    Decimal.e_mem_print_iff]
  rcases Nat.eq_zero_or_pos (magnitude value) with hnone | hpos
  · rw [hnone, Decimal.shortest_zero]
    exact iff_of_false (by decide) (by simp)
  · have hlow := @Decimal.leading_shortest_lt_iff (magnitude value) (-4) (by decide) (by decide)
      (by decide +kernel) hpos.ne' h
    have hhigh := @Decimal.leading_shortest_lt_iff (magnitude value) 16 (by decide) (by decide)
      (by decide +kernel) hpos.ne' h
    omega

end Number

end LineCalculator
