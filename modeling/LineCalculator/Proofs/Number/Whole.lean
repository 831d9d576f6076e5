import LineCalculator.Proofs.Number.Bits
import LineCalculator.Proofs.Number.Nearest

/-!
# Whole numbers as doubles

A positive whole number below `2 ^ 53` is the significand of a double once it is shifted to 53
binary digits. Nothing is rounded on the way, neither when the number is converted nor when the
result is multiplied by one, so the double is the one with the closest pattern.
-/

namespace LineCalculator.Binary64

open Float.Model
open Float.Model.UnpackedFloat hiding ofNat

variable {mantissa n bits : Nat} {exponent : Int}

/-! ### Rounding what needs no rounding -/

theorem targetExponent_eq (mantissa : Nat) (exponent : Int) :
    Format.binary64.targetExponent (totalExponent mantissa exponent) =
      max (mantissa.log2 + exponent - 52) (-1074) := by
  change max (mantissa.log2 + 1 + exponent - 53) (-1074) = _
  congr 1
  omega

/-- Zeros at the end of a mantissa are shifted out without a trace. -/
theorem repeat_shiftRightOne (mantissa n : Nat) :
    n.repeat ExtendedMantissa.shiftRightOne ⟨mantissa * 2 ^ n, false, false⟩ =
      ⟨mantissa, false, false⟩ := by
  induction n generalizing mantissa with
  | zero => rw [pow_zero, mul_one]; rfl
  | succ n ih =>
    have hshift := ih (mantissa * 2)
    rw [mul_assoc, ← pow_succ'] at hshift
    rw [Nat.repeat, hshift]
    simp [ExtendedMantissa.shiftRightOne]

theorem log2_mul_two_pow (h : mantissa ≠ 0) (n : Nat) :
    (mantissa * 2 ^ n).log2 = mantissa.log2 + n := by
  obtain ⟨hlower, hupper⟩ := (Nat.log2_eq_iff h).1 rfl
  rw [Nat.log2_eq_iff (by positivity), pow_add, add_right_comm, pow_add]
  exact ⟨Nat.mul_le_mul_right _ hlower, Nat.mul_lt_mul_of_pos_right hupper (by positivity)⟩

theorem shiftToTargetExponent_exact (hpos : 0 < mantissa) (h : mantissa.log2 = 52)
    (hexponent : -1074 ≤ exponent) (n : Nat) :
    shiftToTargetExponent .binary64 (mantissa * 2 ^ n) (exponent - n) .exact =
      (⟨mantissa, false, false⟩, exponent) := by
  have hamount : (max (((52 + n : Nat) : Int) + (exponent - n) - 52) (-1074) - (exponent - n)).toNat =
      n := by
    omega
  rw [shiftToTargetExponent, shiftToExponent, targetExponent_eq, log2_mul_two_pow hpos.ne', h, hamount]
  exact Prod.ext (repeat_shiftRightOne mantissa n) (Int.sub_add_cancel exponent n)

theorem roundWithAccuracy_exact (sign : Sign) (hpos : 0 < mantissa) (h : mantissa.log2 = 52)
    (hexponent : -1074 ≤ exponent) (n : Nat) :
    roundWithAccuracy .binary64 sign (mantissa * 2 ^ n) (exponent - n) .exact =
      .finite sign mantissa exponent hpos := by
  have hstay := shiftToTargetExponent_exact hpos h hexponent 0
  rw [pow_zero, mul_one, Int.natCast_zero, Int.sub_zero] at hstay
  have hrounded : ExtendedMantissa.roundedMantissa ⟨mantissa, false, false⟩ = mantissa := rfl
  rw [roundWithAccuracy, shiftToTargetExponent_exact hpos h hexponent n]
  dsimp only
  rw [hrounded, hstay]
  exact dif_neg hpos.ne'

/-! ### Whole numbers -/

/-- The significand of a whole number, which has 53 binary digits. -/
def wholeSignificand (n : Nat) : Nat :=
  n * 2 ^ (52 - n.log2)

theorem wholeSignificand_pos (hpos : 0 < n) : 0 < wholeSignificand n := by
  unfold wholeSignificand
  positivity

theorem log2_wholeSignificand (hpos : 0 < n) (h : n < 2 ^ 53) : (wholeSignificand n).log2 = 52 := by
  have hlog : n.log2 < 53 := (Nat.log2_lt hpos.ne').2 h
  rw [wholeSignificand, log2_mul_two_pow hpos.ne']
  omega

theorem round_whole (hpos : 0 < n) (h : n < 2 ^ 53) :
    UnpackedFloat.round .binary64 .positive n 0 =
      .finite .positive (wholeSignificand n) (n.log2 - 52) (wholeSignificand_pos hpos) := by
  have hlog : n.log2 < 53 := (Nat.log2_lt hpos.ne').2 h
  have hround := roundWithAccuracy_exact .positive (wholeSignificand_pos hpos)
    (log2_wholeSignificand hpos h) (show -1074 ≤ (n.log2 : Int) - 52 by omega) 0
  rw [pow_zero, mul_one, Int.natCast_zero, Int.sub_zero] at hround
  have hamount : (0 - max ((n.log2 : Int) + 0 - 52) (-1074)).toNat = 52 - n.log2 := by omega
  have hexponent : (0 : Int) - ((52 - n.log2 : Nat) : Int) = n.log2 - 52 := by omega
  rw [UnpackedFloat.round, targetExponent_eq, decreaseExponent, hamount, hexponent, Nat.shiftLeft_eq]
  exact hround

theorem wholeSignificand_bounds (hpos : 0 < n) (h : n < 2 ^ 53) :
    hiddenBit ≤ wholeSignificand n ∧ wholeSignificand n < 2 * hiddenBit :=
  (Nat.log2_eq_iff (wholeSignificand_pos hpos).ne').1 (log2_wholeSignificand hpos h)

theorem nearest_whole (hpos : 0 < n) (h : n < 2 ^ 53) :
    nearest n 1 = (n.log2 + 1022) * hiddenBit + wholeSignificand n := by
  have hlog : n.log2 < 53 := (Nat.log2_lt hpos.ne').2 h
  obtain ⟨-, hupper⟩ := wholeSignificand_bounds hpos h
  have hfloor : floorLog2 n 1 = n.log2 := by
    rw [floorLog2_eq hpos Nat.one_pos, Nat.cast_one, div_one, Int.log_natCast, Nat.log2_eq_log_two]
  have hgrid : max (-1074) ((n.log2 : Int) - 52) = -((52 - n.log2 : Nat) : Int) := by omega
  have hplace : (-((52 - n.log2 : Nat) : Int) + 1074).toNat = n.log2 + 1022 := by omega
  rw [nearest, if_neg hpos.ne', hfloor]
  simp only [hgrid, hplace, neg_neg, Int.toNat_natCast, Int.toNat_neg_natCast, Nat.shiftLeft_eq,
    pow_zero, mul_one]
  rw [← wholeSignificand]
  have hround := roundHalfEven_mul_right (wholeSignificand n) Nat.one_pos
  rw [mul_one] at hround
  rw [hround, Nat.min_eq_right]
  unfold hiddenBit infinity at *
  omega

/-- A normal pattern unpacks to its value. -/
theorem unpack_normal (hlower : hiddenBit ≤ bits) (hupper : bits < infinity) :
    ∃ hpos, UnpackedFloat.unpack .binary64 (BitVec.ofNat 64 bits) =
      .finite .positive (significand bits) (Binary64.exponent bits) hpos := by
  have hhidden : hiddenBit = 2 ^ 52 := rfl
  have hinfinity : infinity = (2 ^ 11 - 1) * 2 ^ 52 := rfl
  have hbits : (BitVec.ofNat 64 bits).toNat = bits := by
    rw [BitVec.toNat_ofNat]
    omega
  have hsign := toNat_unpackSign (BitVec.ofNat 64 bits)
  have hexponent := toNat_unpackExponent (BitVec.ofNat 64 bits)
  have hmantissa := toNat_unpackMantissa (BitVec.ofNat 64 bits)
  have hunpacks := unpacks_unpack (BitVec.ofNat 64 bits)
  rw [hbits] at hsign hexponent hmantissa
  generalize UnpackedFloat.unpack .binary64 (BitVec.ofNat 64 bits) = unpacked at *
  cases hunpacks with
  | infinity htop | notANumber htop =>
    rw [htop] at hexponent
    change 2 ^ 11 - 1 = _ at hexponent
    omega
  | zero hbottom | subnormal hbottom =>
    rw [hbottom] at hexponent
    change 0 = _ at hexponent
    omega
  | normal htop hpos =>
    have hpositive : Sign.ofBitVec (@unpackSign .binary64 (BitVec.ofNat 64 bits)) = .positive := by
      rw [Sign.ofBitVec, if_pos]
      apply BitVec.eq_of_toNat_eq
      change _ = 0
      omega
    have hsignificand : 2 ^ 52 + (@unpackMantissa .binary64 (BitVec.ofNat 64 bits)).toNat =
        significand bits := by
      rw [significand, if_neg (by omega), hhidden]
      omega
    have hplace : ((@unpackExponent .binary64 (BitVec.ofNat 64 bits)).toNat : Int) - 1075 =
        Binary64.exponent bits := by
      rw [Binary64.exponent, if_neg (by omega), hhidden]
      omega
    exact ⟨significand_pos (by omega), finite_congr hpositive hsignificand hplace⟩

theorem valid_of_lt (h : bits < infinity) : Format.binary64.Valid (BitVec.ofNat 64 bits) := by
  have hinfinity : infinity = (2 ^ 11 - 1) * 2 ^ 52 := rfl
  have hbits : (BitVec.ofNat 64 bits).toNat = bits := by
    rw [BitVec.toNat_ofNat]
    omega
  have hexponent := toNat_unpackExponent (BitVec.ofNat 64 bits)
  refine ⟨fun htop _ => ?_⟩
  rw [htop, hbits] at hexponent
  change 2 ^ 11 - 1 = _ at hexponent
  omega

/-- The double of a normal pattern is packed from its value and unpacks to it. -/
theorem toFloat_normal (hlower : hiddenBit ≤ bits) (hupper : bits < infinity) :
    ∃ hpos, toFloat false bits =
        .ofModel (.pack (.finite .positive (significand bits) (Binary64.exponent bits) hpos)) ∧
      (toFloat false bits).toModel.unpack =
        .finite .positive (significand bits) (Binary64.exponent bits) hpos := by
  obtain ⟨hpos, hunpack⟩ := unpack_normal hlower hupper
  refine ⟨hpos, congrArg (fun value => Float.ofModel (.pack value)) hunpack, ?_⟩
  change UnpackedFloat.unpack .binary64
    (UnpackedFloat.pack .binary64 (UnpackedFloat.unpack .binary64 (BitVec.ofNat 64 bits))) = _
  rw [pack_unpack (valid_of_lt hupper), hunpack]

theorem toFloat_whole (hpos : 0 < n) (h : n < 2 ^ 53) :
    toFloat false (nearest n 1) =
        .ofModel (.pack (.finite .positive (wholeSignificand n) (n.log2 - 52)
          (wholeSignificand_pos hpos))) ∧
      (toFloat false (nearest n 1)).toModel.unpack =
        .finite .positive (wholeSignificand n) (n.log2 - 52) (wholeSignificand_pos hpos) := by
  have hlog : n.log2 < 53 := (Nat.log2_lt hpos.ne').2 h
  obtain ⟨hlower, hupper⟩ := wholeSignificand_bounds hpos h
  have hbits := nearest_whole hpos h
  have hhidden : hiddenBit = 2 ^ 52 := rfl
  have hinfinity : infinity = (2 ^ 11 - 1) * 2 ^ 52 := rfl
  rw [hhidden] at hbits hlower hupper
  have hsignificand : significand (nearest n 1) = wholeSignificand n := by
    rw [significand, if_neg (by omega), hhidden]
    omega
  have hexponent : Binary64.exponent (nearest n 1) = n.log2 - 52 := by
    rw [Binary64.exponent, if_neg (by omega), hhidden]
    omega
  obtain ⟨hpos', hpack, hunpack⟩ :=
    toFloat_normal (show 2 ^ 52 ≤ nearest n 1 by omega) (by omega)
  rw [finite_congr rfl hsignificand hexponent] at hpack hunpack
  exact ⟨hpack, hunpack⟩

/-- A whole number is converted to the closest double. -/
theorem toFloat_nearest_whole (h : n < 2 ^ 53) : toFloat false (nearest n 1) = Float.ofNat n := by
  rcases Nat.eq_zero_or_pos n with rfl | hpos
  · decide +kernel
  obtain ⟨hpack, hunpack⟩ := toFloat_whole hpos h
  have hlog : n.log2 < 53 := (Nat.log2_lt hpos.ne').2 h
  have hconvert : n.toUInt64.toFloat = toFloat false (nearest n 1) := by
    have hn : n.toUInt64.toNat = n := Nat.mod_eq_of_lt (by omega)
    have hcompare : compare (n : Int) 0 = .gt := Int.compare_eq_gt.2 (by omega)
    rw [hpack, ← round_whole hpos h]
    change Float.ofModel
      (.pack (UnpackedFloat.normalize .binary64 (n.toUInt64.toNat : Int) 0 .positive)) = _
    rw [hn, UnpackedFloat.normalize, hcompare, Int.toNat_natCast]
  have hone := toFloat_whole Nat.one_pos (by decide)
  have hproduct := roundWithAccuracy_exact .positive (wholeSignificand_pos hpos)
    (log2_wholeSignificand hpos h) (show -1074 ≤ (n.log2 : Int) - 52 by omega) 52
  rw [Float.ofNat]
  change _ = Float.ofScientific n false 0
  rw [Float.ofScientific, dif_pos ⟨h, by decide⟩, if_neg (by decide), hconvert]
  change _ = Float.ofModel (.pack (UnpackedFloat.mul .binary64
    (toFloat false (nearest n 1)).toModel.unpack (toFloat false (nearest 1 1)).toModel.unpack))
  rw [hunpack, hone.2]
  exact hpack.trans (congrArg (fun value => Float.ofModel (.pack value)) hproduct.symm)

end LineCalculator.Binary64
