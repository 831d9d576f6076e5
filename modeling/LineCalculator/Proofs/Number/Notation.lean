import LineCalculator.Proofs.Number.Printed
import LineCalculator.Proofs.Number.Whole
import LineCalculator.Proofs.Token.Spacing

/-!
# Notations of printed numbers

A finite number is printed plainly or with an exponent, with a minus sign in front if it is negative
and digits on both sides of its point. The lexer knows no exponents: it ends a number before the
letter `e`, takes the digits of an exponent that is not negative for the rest of a name, and the
minus of a negative one for an operator in front of another number.
-/

namespace LineCalculator

namespace Number

/-- Digits with a point between them, and a minus sign in front or not. -/
inductive Plain : Text → Prop
  | mk (negative : Bool) {whole fraction : Text} (hwhole : IsDigits whole)
      (hfraction : IsDigits fraction) : Plain (signText negative ++ (whole ++ '.' :: fraction))

/-- The same with an exponent behind. -/
inductive Scientific (exponent : Int) : Text → Prop
  | mk (negative : Bool) {whole fraction : Text} (hwhole : IsDigits whole)
      (hfraction : IsDigits fraction) :
      Scientific exponent
        (signText negative ++ (whole ++ '.' :: (fraction ++ 'e' :: Decimal.intText exponent)))

variable {value : Float} {text : Text} {exponent : Int}

theorem plain_or_scientific (h : Binary64.magnitude value < Binary64.infinity) :
    Plain (print value) ∨ ∃ exponent, -1074 ≤ exponent ∧ Scientific exponent (print value) := by
  have hexponent := Decimal.le_exponent_shortest (Binary64.magnitude value)
  rw [print_of_lt h]
  generalize Decimal.shortest (Binary64.magnitude value) = decimal at *
  have hprinted := Decimal.printed_print decimal
  generalize decimal.print = body at *
  cases hprinted with
  | plain count hwhole hfraction => exact .inl (.mk _ hwhole hfraction)
  | @scientific whole fraction exponent count hwhole hfraction hvalue hplace hle =>
    exact .inr ⟨exponent, hexponent.trans hle, .mk _ hwhole hfraction⟩

/-- In front of the letter `e` stands a number the lexer reads. -/
theorem Scientific.exists_eq (h : Scientific exponent text) :
    ∃ negative content, IsNumber content ∧
      text = signText negative ++ (content ++ 'e' :: Decimal.intText exponent) := by
  cases h with
  | @mk negative whole fraction hwhole hfraction =>
    refine ⟨negative, _, .decimal hwhole hfraction, ?_⟩
    rw [List.append_assoc, List.cons_append]

/-! ### Characters of the notations -/

theorem head?_ne_minus_of_isDigits {digits : Text} (h : IsDigits digits) (rest : Text) :
    (digits ++ rest).head? ≠ some '-' := by
  obtain ⟨c, more, rfl, hc⟩ := h.exists_cons
  rintro ⟨rfl⟩
  cases hc

theorem not_mem_of_isDigits {digits : Text} {c : Char} (h : IsDigits digits)
    (hdigit : c.isDigit = false) : c ∉ digits := by
  intro hmem
  rw [h.2 c hmem] at hdigit
  cases hdigit

theorem not_mem_of_plain {c : Char} (h : Plain text) (hdigit : c.isDigit = false)
    (hsign : c ≠ '-') (hpoint : c ≠ '.') : c ∉ text := by
  cases h with
  | mk negative hwhole hfraction =>
    have hfront : c ∉ signText negative := by cases negative <;> simp [signText, hsign]
    simp [hfront, hpoint, not_mem_of_isDigits hwhole hdigit, not_mem_of_isDigits hfraction hdigit]

theorem e_not_mem_of_plain (h : Plain text) : 'e' ∉ text :=
  not_mem_of_plain h rfl (by decide) (by decide)

theorem Scientific.not_mem {c : Char} (h : Scientific exponent text) (hdigit : c.isDigit = false)
    (hsign : c ≠ '-') (hpoint : c ≠ '.') (hletter : c ≠ 'e') : c ∉ text := by
  cases h with
  | @mk negative whole fraction hwhole hfraction =>
    have hfront := not_mem_of_plain (.mk negative hwhole hfraction) hdigit hsign hpoint
    have hplaces := not_mem_of_isDigits (isDigits_toDigits exponent.natAbs) hdigit
    have hexponent : c ∉ Decimal.intText exponent := by
      rw [Decimal.intText]
      split <;> simp [hsign, hplaces]
    have hbehind : c ∉ 'e' :: Decimal.intText exponent := by simp [hletter, hexponent]
    have htext : signText negative ++ (whole ++ '.' :: (fraction ++ 'e' :: Decimal.intText exponent)) =
        signText negative ++ (whole ++ '.' :: fraction) ++ 'e' :: Decimal.intText exponent := by
      simp
    rw [htext]
    exact List.not_mem_append hfront hbehind

/-- The exponent stands behind the first letter `e`. -/
theorem Scientific.dropWhile_eq (h : Scientific exponent text) :
    text.dropWhile (· != 'e') = 'e' :: Decimal.intText exponent := by
  cases h with
  | @mk negative whole fraction hwhole hfraction =>
    have hfront := e_not_mem_of_plain (.mk negative hwhole hfraction)
    have hmark : ∀ c ∈ ('e' :: Decimal.intText exponent).head?, (c != 'e') = false := by
      rintro c ⟨rfl⟩
      rfl
    have hdrop := dropWhile_append_of_head? (bne_of_not_mem hfront) hmark
    rwa [List.append_assoc, List.append_assoc, List.cons_append] at hdrop

theorem Scientific.exponent_unique {other : Int} (h : Scientific exponent text)
    (hother : Scientific other text) : exponent = other := by
  have hdrop := h.dropWhile_eq
  rw [hother.dropWhile_eq] at hdrop
  obtain ⟨-, htext⟩ := List.cons.inj hdrop
  have hread := Decimal.readInt?_intText exponent
  rw [← htext, Decimal.readInt?_intText] at hread
  exact (Option.some.inj hread).symm

theorem point_and_e_mem_of_scientific (h : Scientific exponent text) : '.' ∈ text ∧ 'e' ∈ text := by
  cases h
  simp

theorem point_not_mem_print (h : Binary64.infinity ≤ Binary64.magnitude value) : '.' ∉ print value := by
  rcases h.eq_or_lt with heq | hgt
  · rw [print_of_eq heq.symm]
    cases Binary64.isNegative value <;> decide
  · rw [print_of_gt hgt]
    decide

theorem head?_print_of_pos (h : 0 < value) : (print value).head? ≠ some '-' := by
  have hsign := Binary64.isNegative_of_pos value h
  rcases Nat.lt_trichotomy (Binary64.magnitude value) Binary64.infinity with hlt | heq | hgt
  · obtain ⟨c, rest, htext, hc⟩ :=
      (Decimal.printed_print (Decimal.shortest (Binary64.magnitude value))).exists_cons
    rw [print_of_lt hlt, hsign, htext]
    rintro ⟨rfl⟩
    cases hc
  · rw [print_of_eq heq, hsign]
    decide
  · rw [print_of_gt hgt]
    decide

/-- No exponent is less than that of the last binary place of all doubles. -/
theorem le_of_scientific_print (h : Scientific exponent (print value)) : -1074 ≤ exponent := by
  obtain ⟨hpoint, he⟩ := point_and_e_mem_of_scientific h
  have hfinite : Binary64.magnitude value < Binary64.infinity :=
    Nat.lt_of_not_le fun hle => point_not_mem_print hle hpoint
  rcases plain_or_scientific hfinite with hplain | ⟨found, hle, hfound⟩
  · exact absurd he (e_not_mem_of_plain hplain)
  · rwa [h.exponent_unique hfound]

/-! ### Exponents as numbers -/

theorem magnitude_whole (n : Nat) : Decimal.magnitude ⟨n, 0⟩ = Binary64.nearest n 1 := by
  rcases Nat.eq_zero_or_pos n with rfl | hpos
  · rfl
  · rw [Decimal.magnitude_eq_nearest hpos.ne' (by decide) (by omega)]
    simp

theorem read?_toDigits {n : Nat} (h : n < 2 ^ 53) :
    read? (Nat.toDigits 10 n) = some (Float.ofNat n) := by
  have hdigits := isDigits_toDigits n
  obtain ⟨c, rest, htext, hdigit⟩ := hdigits.exists_cons
  have hread := read?_of_isDigit false hdigit rest
  rw [← htext, Decimal.read?_of_isDigits hdigits, Nat.ofDigitChars_ten_toDigits, Option.map_some,
    magnitude_whole, Binary64.toFloat_nearest_whole h] at hread
  exact hread

end Number

end LineCalculator
