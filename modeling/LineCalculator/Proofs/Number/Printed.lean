import LineCalculator.Proofs.Number.Bits
import LineCalculator.Proofs.Number.Literal
import LineCalculator.Proofs.Number.Shortest

/-!
# Printed numbers read back

A printed decimal has digits on both sides of its point, in place or with an exponent behind them.
What is read of it is the decimal with some zeros more behind its digits, so it has the same closest
double, and that is the double that was printed. The words for infinity and for no number are read
as such, and the sign in front says which of two doubles is meant, also for zero.
-/

namespace LineCalculator

namespace Decimal

/-- A text with a point that stands for a decimal, with a number of zeros more behind the digits. -/
inductive Printed (decimal : Decimal) : Text → Prop
  | plain {whole fraction : Text} (count : Nat) (hwhole : IsDigits whole) (hfraction : IsDigits fraction)
      (hvalue : Nat.ofDigitChars 10 (whole ++ fraction) 0 = decimal.digits * 10 ^ count)
      (hplace : 0 - (fraction.length : Int) = decimal.exponent - count) :
      Printed decimal (whole ++ '.' :: fraction)
  | scientific {whole fraction : Text} {exponent : Int} (count : Nat) (hwhole : IsDigits whole)
      (hfraction : IsDigits fraction)
      (hvalue : Nat.ofDigitChars 10 (whole ++ fraction) 0 = decimal.digits * 10 ^ count)
      (hplace : exponent - (fraction.length : Int) = decimal.exponent - count)
      (hexponent : decimal.exponent ≤ exponent) :
      Printed decimal (whole ++ '.' :: (fraction ++ 'e' :: intText exponent))

variable {decimal : Decimal} {digits text : Text}

/-! ### Both notations -/

theorem ofDigitChars_append_zeros (digits : Text) (count init : Nat) :
    Nat.ofDigitChars 10 (digits ++ zeros count) init = Nat.ofDigitChars 10 digits init * 10 ^ count := by
  rw [Nat.ofDigitChars_append, zeros, Nat.ofDigitChars_replicate_zero, Nat.mul_comm]

theorem ofDigitChars_zeros_append (count : Nat) (digits : Text) :
    Nat.ofDigitChars 10 (zeros count ++ digits) 0 = Nat.ofDigitChars 10 digits 0 := by
  rw [Nat.ofDigitChars_append, zeros, Nat.ofDigitChars_replicate_zero, Nat.mul_zero]

theorem isDigit_of_mem_zeros {count : Nat} {c : Char} (h : c ∈ zeros count) : c.isDigit = true := by
  rw [List.eq_of_mem_replicate h]
  rfl

theorem isDigits_zero : IsDigits ['0'] :=
  ⟨by simp, by simp [Char.isDigit]⟩

theorem isDigits_append_zeros (h : IsDigits digits) (count : Nat) : IsDigits (digits ++ zeros count) :=
  ⟨by simp [h.1], fun c hc => (List.mem_append.1 hc).elim (h.2 c) isDigit_of_mem_zeros⟩

theorem isDigits_zeros_append (count : Nat) (h : IsDigits digits) : IsDigits (zeros count ++ digits) :=
  ⟨by simp [h.1], fun c hc => (List.mem_append.1 hc).elim isDigit_of_mem_zeros (h.2 c)⟩

theorem isDigits_take {count : Nat} (h : IsDigits digits) (hcount : 0 < count) :
    IsDigits (digits.take count) := by
  refine ⟨?_, fun c hc => h.2 c (List.mem_of_mem_take hc)⟩
  rw [ne_eq, List.take_eq_nil_iff]
  exact not_or.2 ⟨by omega, h.1⟩

theorem isDigits_drop {count : Nat} (h : IsDigits digits) (hcount : count < digits.length) :
    IsDigits (digits.drop count) := by
  refine ⟨?_, fun c hc => h.2 c (List.mem_of_mem_drop hc)⟩
  rw [ne_eq, List.drop_eq_nil_iff]
  omega

theorem printed_positional (hdigits : IsDigits digits)
    (hvalue : Nat.ofDigitChars 10 digits 0 = decimal.digits) :
    Printed decimal
      (positional digits (decimal.exponent + digits.length - 1) decimal.exponent) := by
  have hlength := List.length_pos_of_ne_nil hdigits.1
  rw [positional]
  split
  next hwhole =>
    have htext : digits ++ zeros decimal.exponent.toNat ++ ['0'] =
        digits ++ zeros (decimal.exponent.toNat + 1) := by
      rw [List.append_assoc, zeros, zeros, List.replicate_succ']
    apply Printed.plain (decimal.exponent.toNat + 1) (isDigits_append_zeros hdigits _) isDigits_zero
    · rw [htext, ofDigitChars_append_zeros, hvalue]
    · rw [List.length_singleton]
      omega
  next hpoint =>
    split
    next hsmall =>
      rw [List.append_assoc]
      apply Printed.plain 0 isDigits_zero (isDigits_zeros_append _ hdigits)
      · have hzeros : ['0'] ++ zeros (-(decimal.exponent + digits.length - 1) - 1).toNat =
            zeros ((-(decimal.exponent + digits.length - 1) - 1).toNat + 1) := rfl
        rw [← List.append_assoc, hzeros, ofDigitChars_zeros_append, hvalue, Nat.pow_zero, Nat.mul_one]
      · rw [List.length_append, zeros, List.length_replicate]
        omega
    next hlarge =>
      rw [List.append_assoc]
      apply Printed.plain 0 (isDigits_take hdigits (by omega)) (isDigits_drop hdigits (by omega))
      · rw [List.take_append_drop, hvalue, Nat.pow_zero, Nat.mul_one]
      · rw [List.length_drop]
        omega

theorem printed_scientific (hdigits : IsDigits digits)
    (hvalue : Nat.ofDigitChars 10 digits 0 = decimal.digits) :
    Printed decimal (scientific digits (decimal.exponent + digits.length - 1)) := by
  have hlength := List.length_pos_of_ne_nil hdigits.1
  have hfirst := isDigits_take hdigits Nat.one_pos
  rw [scientific]
  simp only [List.append_assoc]
  split
  next hnone =>
    rw [List.drop_eq_nil_iff] at hnone
    rw [List.take_of_length_le hnone] at hfirst ⊢
    apply Printed.scientific 1 hfirst isDigits_zero
    · rw [show ['0'] = zeros 1 from rfl, ofDigitChars_append_zeros, hvalue]
    · rw [List.length_singleton]
      omega
    · omega
  next hmore =>
    rw [List.drop_eq_nil_iff] at hmore
    apply Printed.scientific 0 hfirst (isDigits_drop hdigits (by omega))
    · rw [List.take_append_drop, hvalue, Nat.pow_zero, Nat.mul_one]
    · rw [List.length_drop]
      omega
    · omega

theorem printed_print (decimal : Decimal) : Printed decimal decimal.print := by
  have hdigits := isDigits_toDigits decimal.digits
  have hvalue : Nat.ofDigitChars 10 (Nat.toDigits 10 decimal.digits) 0 = decimal.digits :=
    Nat.ofDigitChars_ten_toDigits
  rw [print]
  split
  next => exact printed_positional hdigits hvalue
  next => exact printed_scientific hdigits hvalue

/-! ### Reading back -/

theorem Printed.exists_cons (h : Printed decimal text) :
    ∃ c rest, text = c :: rest ∧ c.isDigit = true := by
  cases h with
  | plain count hwhole | scientific count hwhole =>
    obtain ⟨c, rest, rfl, hc⟩ := hwhole.exists_cons
    exact ⟨c, _, rfl, hc⟩

/-- A printed decimal is read with some zeros behind its digits. -/
theorem Printed.read?_eq (h : Printed decimal text) :
    ∃ count : Nat, read? text = some ⟨decimal.digits * 10 ^ count, decimal.exponent - count⟩ := by
  cases h with
  | plain count hwhole hfraction hvalue hplace =>
    have hnone : ∀ c ∈ ([] : Text).head?, c.isDigit = false := by simp
    have hread := read?_of_point hwhole hfraction hnone
    rw [List.append_nil] at hread
    refine ⟨count, ?_⟩
    rw [hread, readExponent?, Option.map_some, hvalue, hplace]
  | @scientific whole fraction exponent count hwhole hfraction hvalue hplace hexponent =>
    have hmark : ∀ c ∈ ('e' :: intText exponent).head?, c.isDigit = false := by
      rintro c ⟨rfl⟩
      rfl
    refine ⟨count, ?_⟩
    rw [read?_of_point hwhole hfraction hmark, readExponent?, if_pos (.inl rfl), readInt?_intText,
      Option.map_some, hvalue, hplace]

theorem Printed.map_magnitude (h : Printed decimal text)
    (hzero : decimal.magnitude = 0 → decimal.digits = 0)
    (hfinite : decimal.magnitude < Binary64.infinity) :
    (read? text).map magnitude = some decimal.magnitude := by
  obtain ⟨count, hread⟩ := h.read?_eq
  rw [hread, Option.map_some, magnitude_mul_pow count hzero hfinite]

end Decimal

namespace Number

open Binary64

variable {value : Float}

theorem print_of_lt (h : magnitude value < infinity) :
    print value = signText (isNegative value) ++ (Decimal.shortest (magnitude value)).print := by
  rw [print, if_neg (Nat.lt_asymm h)]
  simp only [if_neg h.ne]
  rfl

theorem print_of_eq (h : magnitude value = infinity) :
    print value = signText (isNegative value) ++ "Infinity".toList := by
  rw [print, if_neg (by omega)]
  simp only [if_pos h]
  rfl

theorem print_of_gt (h : infinity < magnitude value) : print value = "NaN".toList := by
  rw [print, if_pos h]

/-- A decimal whose closest double is a number's, with the number's sign in front, is read as that number. -/
theorem read?_signText_append {c : Char} {rest : Text} (hdigit : c.isDigit = true)
    (h : (Decimal.read? (c :: rest)).map Decimal.magnitude = some (magnitude value)) :
    read? (signText (isNegative value) ++ c :: rest) = some value := by
  have hdouble : ((Decimal.read? (c :: rest)).map Decimal.magnitude).map
      (toFloat (isNegative value)) = some value := by
    rw [h, Option.map_some, toFloat_magnitude]
  rw [read?_of_isDigit _ hdigit, ← hdouble, Option.map_map]
  rfl

/-- Every printed number is read as the number that was printed. -/
theorem read?_print (value : Float) : read? (print value) = some value := by
  rcases Nat.lt_trichotomy (magnitude value) infinity with hfinite | hinfinite | hnan
  · have hshortest := Decimal.magnitude_shortest hfinite
    have hprinted := Decimal.printed_print (Decimal.shortest (magnitude value))
    have hread := hprinted.map_magnitude (Decimal.digits_shortest_eq_zero hfinite) (by rwa [hshortest])
    obtain ⟨c, rest, htext, hdigit⟩ := hprinted.exists_cons
    rw [hshortest, htext] at hread
    rw [print_of_lt hfinite, htext, read?_signText_append hdigit hread]
  · rw [print_of_eq hinfinite]
    have hvalue := toFloat_magnitude value
    rw [hinfinite] at hvalue
    cases hnegative : isNegative value with
    | true =>
      rw [hnegative] at hvalue
      rw [← hvalue]
      rfl
    | false =>
      rw [hnegative] at hvalue
      rw [← hvalue]
      rfl
  · rw [print_of_gt hnan, ← toFloat_notANumber hnan]
    rfl

end Number

end LineCalculator
