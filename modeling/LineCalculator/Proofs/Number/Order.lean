import LineCalculator.Proofs.Number.Bits
import Mathlib.Data.Int.Order.Basic
import Mathlib.Data.Nat.Basic

/-!
# Doubles are ordered as their patterns

Two doubles without a minus sign are compared by exponent and then by significand, with zero below
and infinity above all others. The exponent field stands above the mantissa in a pattern, and a
normal significand has a leading bit that a subnormal one lacks, so patterns compare alike. The
absolute value of a double has the same pattern.
-/

namespace LineCalculator.Binary64

open Float.Model
open Float.Model.UnpackedFloat hiding ofNat

/-- What a pattern up to infinity stands for with a sign. -/
inductive Stands (sign : Sign) : Nat → UnpackedFloat → Prop
  | zero : Stands sign 0 (.zero sign)
  | subnormal {mantissa : Nat} (hmantissa : mantissa < 2 ^ 52) (h : 0 < mantissa) :
      Stands sign mantissa (.finite sign mantissa (-1074) h)
  | normal {field mantissa : Nat} (hfield : 0 < field) (htop : field < 2 ^ 11 - 1)
      (hmantissa : mantissa < 2 ^ 52) (h : 0 < 2 ^ 52 + mantissa) :
      Stands sign (field * 2 ^ 52 + mantissa) (.finite sign (2 ^ 52 + mantissa) (field - 1075) h)
  | infinity : Stands sign infinity (.infinity sign)

variable {value left right : Float}

theorem stands_unpack (h : magnitude value ≤ infinity) :
    Stands (.ofBitVec (@unpackSign .binary64 value.toBits.toBitVec)) (magnitude value)
      (UnpackedFloat.unpack .binary64 value.toBits.toBitVec) := by
  have hunpacks := unpacks_unpack value.toBits.toBitVec
  have hexponent_lt := toNat_unpackExponent_lt value.toBits.toBitVec
  have hmantissa_lt := toNat_unpackMantissa_lt value.toBits.toBitVec
  have hnumber : value.isNaN = false := by
    rw [(isInf_eq_and_isNaN_eq value).2, decide_eq_false_iff_not]
    omega
  change (UnpackedFloat.unpack .binary64 value.toBits.toBitVec).isNaN = false at hnumber
  rw [magnitude_eq]
  generalize UnpackedFloat.unpack .binary64 value.toBits.toBitVec = unpacked at *
  cases hunpacks with
  | infinity hexponent hmantissa =>
    rw [hexponent, hmantissa]
    exact .infinity
  | notANumber => cases hnumber
  | zero hexponent hmantissa =>
    rw [hexponent, hmantissa]
    exact .zero
  | subnormal hexponent hpos =>
    have hbottom : (0#11).toNat = 0 := rfl
    rw [hexponent, hbottom, Nat.zero_mul, Nat.zero_add]
    exact .subnormal hmantissa_lt hpos
  | normal hexponent hbottom hpos =>
    have htop : (@unpackExponent .binary64 value.toBits.toBitVec).toNat ≠ 2 ^ 11 - 1 :=
      fun heq => hexponent (BitVec.eq_of_toNat_eq heq)
    have hfield : (@unpackExponent .binary64 value.toBits.toBitVec).toNat ≠ 0 :=
      fun heq => hbottom (BitVec.eq_of_toNat_eq heq)
    exact .normal (by omega) (by omega) hmantissa_lt hpos

/-! ### Comparing -/

/-- Exponents and then significands are compared as two patterns that have the order of both. -/
theorem compare_fields {place place' : Int} {significand significand' bits other : Nat}
    (hless : place < place' → bits < other) (hgreater : place' < place → other < bits)
    (hsame : place = place' →
      (significand < significand' ↔ bits < other) ∧ (significand' < significand ↔ other < bits)) :
    (compare place place').then (compare significand significand') = compare bits other := by
  rcases lt_trichotomy place place' with hlt | heq | hgt
  · rw [compare_lt_iff_lt.2 hlt, compare_lt_iff_lt.2 (hless hlt)]
    rfl
  · obtain ⟨hdown, hup⟩ := hsame heq
    rw [compare_eq_iff_eq.2 heq, Ordering.eq_then]
    rcases lt_trichotomy significand significand' with hlt | rfl | hgt
    · rw [compare_lt_iff_lt.2 hlt, compare_lt_iff_lt.2 (hdown.1 hlt)]
    · rw [compare_eq_iff_eq.2 rfl, compare_eq_iff_eq.2 (by omega)]
    · rw [compare_gt_iff_gt.2 hgt, compare_gt_iff_gt.2 (hup.1 hgt)]
  · rw [compare_gt_iff_gt.2 hgt, compare_gt_iff_gt.2 (hgreater hgt)]
    rfl

theorem Stands.compare_eq {bits other : Nat} {unpacked found : UnpackedFloat}
    (h : Stands .positive bits unpacked) (hother : Stands .positive other found) :
    unpacked.compare found = some (compare bits other) := by
  have hinfinity : Binary64.infinity = (2 ^ 11 - 1) * 2 ^ 52 := rfl
  have hless : ∀ {bits other : Nat}, bits < other → some Ordering.lt = some (compare bits other) :=
    fun h => congrArg some (compare_lt_iff_lt.2 h).symm
  have hgreater : ∀ {bits other : Nat}, other < bits → some Ordering.gt = some (compare bits other) :=
    fun h => congrArg some (compare_gt_iff_gt.2 h).symm
  cases h with
  | zero =>
    cases hother with
    | zero => rfl
    | subnormal _ hpos => exact hless hpos
    | normal hfield => exact hless (by omega)
    | infinity => rfl
  | subnormal hmantissa hpos =>
    cases hother with
    | zero => exact hgreater hpos
    | subnormal => exact congrArg some (compare_fields (by omega) (by omega) (by omega))
    | normal hfield => exact congrArg some (compare_fields (by omega) (by omega) (by omega))
    | infinity => exact hless (by omega)
  | normal hfield htop hmantissa =>
    cases hother with
    | zero => exact hgreater (by omega)
    | subnormal => exact congrArg some (compare_fields (by omega) (by omega) (by omega))
    | normal => exact congrArg some (compare_fields (by omega) (by omega) (by omega))
    | infinity => exact hless (by omega)
  | infinity =>
    cases hother with
    | zero => rfl
    | subnormal => exact hgreater (by omega)
    | normal => exact hgreater (by omega)
    | infinity => rfl

theorem unpackSign_of_not_isNegative (h : isNegative value = false) :
    Sign.ofBitVec (@unpackSign .binary64 value.toBits.toBitVec) = .positive := by
  have hsign := toNat_unpackSign value.toBits.toBitVec
  rw [isNegative, decide_eq_false_iff_not, signWeight] at h
  rw [UInt64.toNat_toBitVec] at hsign
  have hzero : @unpackSign .binary64 value.toBits.toBitVec = 0#1 := by
    apply BitVec.eq_of_toNat_eq
    rw [hsign]
    exact Nat.div_eq_of_lt (by omega)
  rw [hzero]
  rfl

section

variable (hleft : isNegative left = false) (hright : isNegative right = false)
  (hleft' : magnitude left ≤ infinity) (hright' : magnitude right ≤ infinity)

include hleft hright hleft' hright'

theorem compare_unpack :
    (UnpackedFloat.unpack .binary64 left.toBits.toBitVec).compare
        (UnpackedFloat.unpack .binary64 right.toBits.toBitVec) =
      some (compare (magnitude left) (magnitude right)) := by
  have hstands := stands_unpack hleft'
  have hstands' := stands_unpack hright'
  rw [unpackSign_of_not_isNegative hleft] at hstands
  rw [unpackSign_of_not_isNegative hright] at hstands'
  exact hstands.compare_eq hstands'

theorem lt_iff_magnitude_lt : left < right ↔ magnitude left < magnitude right := by
  have hlt : left < right ↔ (UnpackedFloat.unpack .binary64 left.toBits.toBitVec).lt
      (UnpackedFloat.unpack .binary64 right.toBits.toBitVec) = true := decide_eq_true_iff
  rw [hlt, UnpackedFloat.lt, compare_unpack hleft hright hleft' hright', ← compare_lt_iff_lt]
  exact beq_iff_eq.trans Option.some_inj

theorem le_iff_magnitude_le : left ≤ right ↔ magnitude left ≤ magnitude right := by
  have hle : left ≤ right ↔ (UnpackedFloat.unpack .binary64 left.toBits.toBitVec).le
      (UnpackedFloat.unpack .binary64 right.toBits.toBitVec) = true := decide_eq_true_iff
  rw [hle, UnpackedFloat.le, compare_unpack hleft hright hleft' hright', ← compare_le_iff_le]
  exact Ordering.isLE_iff_ne_gt

end

/-! ### Absolute values -/

theorem Stands.toNat_pack_abs {sign : Sign} {bits : Nat} {unpacked : UnpackedFloat}
    (h : Stands sign bits unpacked) :
    (UnpackedFloat.pack .binary64 unpacked.abs).toNat = bits := by
  cases h with
  | zero => rfl
  | subnormal hmantissa hpos =>
    have hfits : (BitVec.ofNat 52 bits).toNat = bits := Nat.mod_eq_of_lt hmantissa
    change (UnpackedFloat.pack .binary64 (.finite .positive bits (-1074) hpos)).toNat = bits
    rw [finite_congr rfl hfits.symm rfl, pack_subnormal, toNat_packComponents, hfits]
    exact Nat.zero_add bits
  | @normal field mantissa hfield htop hmantissa hpos =>
    have hfits : (BitVec.ofNat 52 mantissa).toNat = mantissa := Nat.mod_eq_of_lt hmantissa
    have hfits' : (BitVec.ofNat 11 field).toNat = field := Nat.mod_eq_of_lt (by omega)
    have hsignificand : 2 ^ 52 + mantissa = 2 ^ 52 + (BitVec.ofNat 52 mantissa).toNat := by rw [hfits]
    have hexponent : (field : Int) - 1075 = (BitVec.ofNat 11 field).toNat - 1075 := by rw [hfits']
    have hbelow : (BitVec.ofNat 11 field).toNat < 2 ^ 11 - 1 := by rwa [hfits']
    change (UnpackedFloat.pack .binary64
      (.finite .positive (2 ^ 52 + mantissa) (field - 1075) hpos)).toNat = field * 2 ^ 52 + mantissa
    rw [finite_congr rfl hsignificand hexponent, pack_normal _ hbelow, toNat_packComponents, hfits,
      hfits']
    exact congrArg (· + mantissa) (Nat.zero_add (field * 2 ^ 52))
  | infinity => rfl

/-- Only the sign goes. -/
theorem magnitude_abs (h : magnitude value ≤ infinity) :
    magnitude value.abs = magnitude value ∧ isNegative value.abs = false := by
  have hbits : value.abs.toBits.toNat = magnitude value := (stands_unpack h).toNat_pack_abs
  have hlt : magnitude value < signWeight := Nat.mod_lt _ (by decide)
  constructor
  · rw [magnitude, hbits, Nat.mod_eq_of_lt hlt]
  · rw [isNegative, hbits, decide_eq_false_iff_not]
    omega

end LineCalculator.Binary64
