import LineCalculator.Number.Binary64
import Mathlib.Algebra.Group.Nat.Defs

/-!
# A double is its sign and its magnitude

The 64 bits of a double are one bit of sign, eleven of exponent and 52 of mantissa. Unpacking takes
them apart and packing puts them together again, except that all patterns of no number are packed as
one. A double carries that one only, so it is determined by its bits, and these by the sign and the
pattern without it.
-/

namespace LineCalculator.Binary64

open Float.Model
open Float.Model.UnpackedFloat hiding ofNat

section

variable (bits : BitVec Format.binary64.numBits)

/-! ### The three fields as numbers -/

theorem toNat_unpackMantissa : (unpackMantissa bits).toNat = bits.toNat % 2 ^ 52 := by
  simp [unpackMantissa, BitVec.extractLsb]

theorem toNat_unpackExponent : (unpackExponent bits).toNat = bits.toNat / 2 ^ 52 % 2 ^ 11 := by
  simp [unpackExponent, BitVec.extractLsb, Nat.shiftRight_eq_div_pow]

theorem toNat_unpackSign : (unpackSign bits).toNat = bits.toNat / 2 ^ 63 := by
  have hlt : bits.toNat < 2 ^ 64 := bits.isLt
  change (bits.toNat >>> 63) % 2 ^ 1 = bits.toNat / 2 ^ 63
  rw [Nat.shiftRight_eq_div_pow]
  omega

theorem toNat_packComponents (sign : Sign) (exponent : BitVec 11) (mantissa : BitVec 52) :
    (packComponents .binary64 sign exponent mantissa).toNat =
      sign.toBitVec.toNat * 2 ^ 63 + exponent.toNat * 2 ^ 52 + mantissa.toNat := by
  rw [packComponents, BitVec.toNat_append, ← Nat.shiftLeft_add_eq_or_of_lt mantissa.isLt,
    BitVec.toNat_append, ← Nat.shiftLeft_add_eq_or_of_lt exponent.isLt, Nat.shiftLeft_eq,
    Nat.shiftLeft_eq]
  omega

theorem toNat_unpackExponent_lt : (unpackExponent bits).toNat < 2 ^ 11 :=
  (unpackExponent bits).isLt

theorem toNat_unpackMantissa_lt : (unpackMantissa bits).toNat < 2 ^ 52 :=
  (unpackMantissa bits).isLt

theorem toBitVec_ofBitVec (bit : BitVec 1) : (Sign.ofBitVec bit).toBitVec = bit := by
  revert bit
  decide

theorem packComponents_unpack :
    packComponents .binary64 (.ofBitVec (unpackSign bits)) (unpackExponent bits) (unpackMantissa bits) =
      bits := by
  apply BitVec.eq_of_toNat_eq
  rw [toNat_packComponents, toBitVec_ofBitVec, toNat_unpackSign, toNat_unpackExponent,
    toNat_unpackMantissa]
  omega

/-! ### What a pattern unpacks to -/

/-- A mantissa is not rewritten in place, since the proof that it is positive is about it. -/
theorem finite_congr {sign sign' : Sign} {mantissa mantissa' : Nat} {exponent exponent' : Int}
    {h : 0 < mantissa} (hsign : sign = sign') (hmantissa : mantissa = mantissa')
    (hexponent : exponent = exponent') :
    UnpackedFloat.finite sign mantissa exponent h =
      .finite sign' mantissa' exponent' (hmantissa ▸ h) := by
  subst hsign hmantissa hexponent
  rfl

/-- The value of a pattern, by its exponent field. -/
inductive Unpacks : UnpackedFloat → Prop
  | infinity (hexponent : unpackExponent bits = -1#11) (hmantissa : unpackMantissa bits = 0#52) :
      Unpacks (.infinity (.ofBitVec (unpackSign bits)))
  | notANumber (hexponent : unpackExponent bits = -1#11) (hmantissa : unpackMantissa bits ≠ 0#52) :
      Unpacks .notANumber
  | zero (hexponent : unpackExponent bits = 0#11) (hmantissa : unpackMantissa bits = 0#52) :
      Unpacks (.zero (.ofBitVec (unpackSign bits)))
  | subnormal (hexponent : unpackExponent bits = 0#11) (h : 0 < (unpackMantissa bits).toNat) :
      Unpacks (.finite (.ofBitVec (unpackSign bits)) (unpackMantissa bits).toNat (-1074) h)
  | normal (hexponent : unpackExponent bits ≠ -1#11) (hbottom : unpackExponent bits ≠ 0#11)
      (h : 0 < 2 ^ 52 + (unpackMantissa bits).toNat) :
      Unpacks (.finite (.ofBitVec (unpackSign bits)) (2 ^ 52 + (unpackMantissa bits).toNat)
        ((unpackExponent bits).toNat - 1075) h)

theorem toNat_one_append (mantissa : BitVec 52) :
    (1#1 ++ mantissa).toNat = 2 ^ 52 + mantissa.toNat := by
  rw [BitVec.toNat_append, ← Nat.shiftLeft_add_eq_or_of_lt mantissa.isLt]
  rfl

theorem unpacks_unpack : Unpacks bits (UnpackedFloat.unpack .binary64 bits) := by
  delta UnpackedFloat.unpack
  dsimp only
  by_cases htop : unpackExponent bits = -1#(Format.binary64.exponentBits)
  · rw [if_pos htop]
    by_cases hzero : unpackMantissa bits = 0#(Format.binary64.mantissaBitsWithoutImplicit)
    · rw [if_pos hzero]
      exact .infinity htop hzero
    · rw [if_neg hzero]
      exact .notANumber htop hzero
  · rw [if_neg htop]
    by_cases hbottom : unpackExponent bits = 0#(Format.binary64.exponentBits)
    · rw [if_pos hbottom]
      by_cases hzero : unpackMantissa bits = 0#(Format.binary64.mantissaBitsWithoutImplicit)
      · rw [dif_pos hzero]
        exact .zero hbottom hzero
      · rw [dif_neg hzero]
        have hexponent : ((unpackExponent bits).toNat : Int) - (Format.binary64.exponentBias +
            Format.binary64.mantissaBitsWithoutImplicit) + 1 = -1074 := by
          rw [hbottom]
          rfl
        rw [hexponent]
        exact .subnormal hbottom _
    · rw [if_neg hbottom]
      rw [finite_congr rfl (toNat_one_append _) rfl]
      exact .normal htop hbottom _

/-! ### Packing undoes unpacking -/

theorem pack_subnormal (sign : Sign) {mantissa : BitVec 52} (h : 0 < mantissa.toNat) :
    UnpackedFloat.pack .binary64 (.finite sign mantissa.toNat (-1074) h) =
      packComponents .binary64 sign 0#11 mantissa := by
  have hlog : mantissa.toNat.log2 < 52 := (Nat.log2_lt (by omega)).2 mantissa.isLt
  have hbits : mantissa.toNat.log2 + 1 ≠ Format.binary64.mantissaBits := by
    change mantissa.toNat.log2 + 1 ≠ 53
    omega
  delta UnpackedFloat.pack
  dsimp only
  rw [if_neg (by decide), if_neg hbits, BitVec.ofNat_toNat, BitVec.setWidth_eq]

theorem pack_normal (sign : Sign) {exponent : BitVec 11} {mantissa : BitVec 52}
    (hexponent : exponent.toNat < 2 ^ 11 - 1) (h : 0 < 2 ^ 52 + mantissa.toNat) :
    UnpackedFloat.pack .binary64 (.finite sign (2 ^ 52 + mantissa.toNat) (exponent.toNat - 1075) h) =
      packComponents .binary64 sign exponent mantissa := by
  have hlt := mantissa.isLt
  have hlog : (2 ^ 52 + mantissa.toNat).log2 = 52 := (Nat.log2_eq_iff (by omega)).2 (by omega)
  have hbiased : ((exponent.toNat : Int) - 1075 + Format.binary64.exponentBias +
      Format.binary64.mantissaBitsWithoutImplicit).toNat = exponent.toNat := by
    change ((exponent.toNat : Int) - 1075 + 1023 + 52).toNat = exponent.toNat
    omega
  have hmantissa : BitVec.ofNat 52 (2 ^ 52 + mantissa.toNat) = mantissa := by
    apply BitVec.eq_of_toNat_eq
    rw [BitVec.toNat_ofNat]
    omega
  delta UnpackedFloat.pack
  dsimp only
  rw [hbiased, if_neg (by omega), if_pos (by rw [hlog]; rfl), BitVec.ofNat_toNat, BitVec.setWidth_eq,
    hmantissa]

theorem pack_unpack {bits : BitVec Format.binary64.numBits} (h : Format.binary64.Valid bits) :
    UnpackedFloat.pack .binary64 (UnpackedFloat.unpack .binary64 bits) = bits := by
  have hbits := packComponents_unpack bits
  generalize hvalue : UnpackedFloat.unpack .binary64 bits = value
  have hunpacks := unpacks_unpack bits
  rw [hvalue] at hunpacks
  cases hunpacks with
  | infinity hexponent hmantissa | zero hexponent hmantissa =>
    rw [hexponent, hmantissa] at hbits
    exact hbits
  | notANumber hexponent hmantissa => exact (h.eq_packedNaN hexponent hmantissa).symm
  | subnormal hexponent hpos =>
    rw [hexponent] at hbits
    rw [pack_subnormal, hbits]
  | normal hexponent hbottom hpos =>
    have hlt := toNat_unpackExponent_lt bits
    have hne : (unpackExponent bits).toNat ≠ 2 ^ 11 - 1 := fun heq =>
      hexponent (BitVec.eq_of_toNat_eq heq)
    rw [pack_normal _ (by omega), hbits]

end

/-! ### The double of a sign and a magnitude -/

theorem ofBits_toBits (value : Float) : Float.ofBits value.toBits = value := by
  obtain ⟨⟨bits, hvalid⟩⟩ := value
  have hpacked : ∀ other hother, other = bits →
      Float.ofModel ⟨other, hother⟩ = .ofModel ⟨bits, hvalid⟩ := by
    intro other hother heq
    subst heq
    rfl
  exact hpacked _ _ (congrArg UInt64.ofBitVec (pack_unpack hvalid))

variable (value : Float)

theorem toNat_toBits_lt : value.toBits.toNat < 2 ^ 64 :=
  value.toBits.toBitVec.isLt

theorem toNat_toBits :
    value.toBits.toNat = if isNegative value then signWeight + magnitude value else magnitude value := by
  have hlt := toNat_toBits_lt value
  unfold isNegative magnitude signWeight
  split
  next h =>
    have hle := of_decide_eq_true h
    omega
  next h =>
    rw [decide_eq_true_eq] at h
    omega

theorem toFloat_magnitude : toFloat (isNegative value) (magnitude value) = value := by
  rw [toFloat, ← toNat_toBits, UInt64.ofNat_toNat, ofBits_toBits]

/-! ### Doubles that are not finite, and positive ones -/

theorem magnitude_eq :
    magnitude value = (@unpackExponent .binary64 value.toBits.toBitVec).toNat * 2 ^ 52 +
      (@unpackMantissa .binary64 value.toBits.toBitVec).toNat := by
  rw [toNat_unpackExponent, toNat_unpackMantissa, UInt64.toNat_toBitVec]
  simp only [magnitude, signWeight]
  omega

/-- Infinity has the magnitude of infinity and no number has a greater one. -/
theorem isInf_eq_and_isNaN_eq :
    value.isInf = decide (magnitude value = infinity) ∧
      value.isNaN = decide (infinity < magnitude value) := by
  have hunpacks := unpacks_unpack value.toBits.toBitVec
  have hexponent_lt := toNat_unpackExponent_lt value.toBits.toBitVec
  have hmantissa_lt := toNat_unpackMantissa_lt value.toBits.toBitVec
  rw [magnitude_eq]
  change (UnpackedFloat.unpack .binary64 value.toBits.toBitVec).isInf = _ ∧
    (UnpackedFloat.unpack .binary64 value.toBits.toBitVec).isNaN = _
  generalize UnpackedFloat.unpack .binary64 value.toBits.toBitVec = unpacked at *
  have hinfinity : infinity = (2 ^ 11 - 1) * 2 ^ 52 := rfl
  cases hunpacks with
  | infinity hexponent hmantissa =>
    rw [hexponent, hmantissa]
    exact ⟨(decide_eq_true rfl).symm, (decide_eq_false (by decide)).symm⟩
  | notANumber hexponent hmantissa =>
    have hne : (@unpackMantissa .binary64 value.toBits.toBitVec).toNat ≠ 0 := fun heq =>
      hmantissa (BitVec.eq_of_toNat_eq heq)
    have htop : (-1#11).toNat = 2 ^ 11 - 1 := rfl
    rw [hexponent]
    exact ⟨(decide_eq_false (by omega)).symm, (decide_eq_true (by omega)).symm⟩
  | zero hexponent hmantissa =>
    rw [hexponent, hmantissa]
    exact ⟨(decide_eq_false (by decide)).symm, (decide_eq_false (by decide)).symm⟩
  | subnormal hexponent hpos =>
    have hbottom : (0#11).toNat = 0 := rfl
    rw [hexponent]
    exact ⟨(decide_eq_false (by omega)).symm, (decide_eq_false (by omega)).symm⟩
  | normal hexponent hbottom hpos =>
    have hne : (@unpackExponent .binary64 value.toBits.toBitVec).toNat ≠ 2 ^ 11 - 1 :=
      fun heq => hexponent (BitVec.eq_of_toNat_eq heq)
    exact ⟨(decide_eq_false (by omega)).symm, (decide_eq_false (by omega)).symm⟩

/-- There is one double that is no number. -/
theorem toFloat_notANumber {value : Float} (h : infinity < magnitude value) :
    toFloat false notANumber = value := by
  have hexponent_lt := toNat_unpackExponent_lt value.toBits.toBitVec
  have hmantissa_lt := toNat_unpackMantissa_lt value.toBits.toBitVec
  have hinfinity : infinity = (2 ^ 11 - 1) * 2 ^ 52 := rfl
  rw [magnitude_eq] at h
  have hexponent : @unpackExponent .binary64 value.toBits.toBitVec = -1#11 := by
    apply BitVec.eq_of_toNat_eq
    change _ = 2 ^ 11 - 1
    omega
  have hmantissa : @unpackMantissa .binary64 value.toBits.toBitVec ≠ 0#52 := by
    intro hzero
    rw [hexponent, hzero] at h
    exact absurd h (by decide)
  have hbits : value.toBits.toNat = notANumber :=
    congrArg BitVec.toNat (value.toModel.valid.eq_packedNaN hexponent hmantissa)
  rw [toFloat, if_neg (by decide), ← hbits, UInt64.ofNat_toNat, ofBits_toBits]

theorem isNegative_of_pos (h : 0 < value) : isNegative value = false := by
  have hlt : (UnpackedFloat.zero .positive).lt
      (UnpackedFloat.unpack .binary64 value.toBits.toBitVec) = true := of_decide_eq_true h
  have hunpacks := unpacks_unpack value.toBits.toBitVec
  generalize UnpackedFloat.unpack .binary64 value.toBits.toBitVec = unpacked at *
  have hsign : Sign.ofBitVec (@unpackSign .binary64 value.toBits.toBitVec) = .positive := by
    cases hunpacks
    case notANumber => cases hlt
    case zero => cases hlt
    all_goals
      generalize Sign.ofBitVec (@unpackSign .binary64 value.toBits.toBitVec) = sign at *
      cases sign with
      | negative => cases hlt
      | positive => rfl
  have hbit := toBitVec_ofBitVec (@unpackSign .binary64 value.toBits.toBitVec)
  have hclear := toNat_unpackSign value.toBits.toBitVec
  rw [← hbit, hsign, UInt64.toNat_toBitVec] at hclear
  rw [isNegative, decide_eq_false_iff_not, signWeight]
  have hzero : Sign.positive.toBitVec.toNat = 0 := rfl
  omega

end LineCalculator.Binary64
