import LineCalculator.Proofs.Number.Places

/-!
# Printing loses nothing

A scientific notation with one digit has no point, and it gets a fraction put in before its exponent.
The digits then stand for ten times as much and the exponent for a tenth of it, so the number read is
the same. With that every number is printed in one of a few forms, is read back from it, and no two
numbers are printed alike.
-/

namespace LineCalculator

/-- A text with a fraction put in before its exponent, if it has an exponent and no point before it. -/
def fillFraction (text : Text) : Text :=
  match text.dropWhile (· != 'e') with
  | [] => text
  | _ :: exponent =>
    let mantissa := text.takeWhile (· != 'e')
    if '.' ∈ mantissa then text else mantissa ++ ".0e".toList ++ exponent

theorem fillFraction_of_not_mem {text : Text} (h : 'e' ∉ text) : fillFraction text = text := by
  have hnone : text.dropWhile (· != 'e') = [] := dropWhile_eq_nil_of_forall (bne_of_not_mem h)
  rw [fillFraction, hnone]

theorem fillFraction_append {mantissa : Text} (h : 'e' ∉ mantissa) (exponent : Text) :
    fillFraction (mantissa ++ 'e' :: exponent) =
      if '.' ∈ mantissa then mantissa ++ 'e' :: exponent
      else mantissa ++ ".0e".toList ++ exponent := by
  have hfront := bne_of_not_mem h
  have hmark : ∀ c ∈ ('e' :: exponent).head?, (c != 'e') = false := by simp
  rw [fillFraction, dropWhile_append_of_head? hfront hmark, takeWhile_append_of_head? hfront hmark]

namespace Decimal

/-- The printed decimal as it is before a fraction is put in. -/
def brief (decimal : Decimal) : Text :=
  let digits := Nat.toDigits 10 decimal.digits
  if -4 ≤ decimal.leading ∧ decimal.leading ≤ 15 then
    positional digits decimal.leading decimal.exponent
  else
    let fraction := if digits.drop 1 = [] then [] else '.' :: digits.drop 1
    digits.take 1 ++ fraction ++ 'e' :: intText decimal.leading

variable {decimal : Decimal} {digits : Text}

theorem brief_of_plain (h : -4 ≤ decimal.leading ∧ decimal.leading ≤ 15) :
    decimal.brief = decimal.print := by
  rw [brief, print_eq, if_pos h, if_pos h]

theorem brief_of_scientific (h : ¬ (-4 ≤ decimal.leading ∧ decimal.leading ≤ 15))
    (hmore : (Nat.toDigits 10 decimal.digits).drop 1 ≠ []) : decimal.brief = decimal.print := by
  rw [brief, print_eq, if_neg h, if_neg h, scientific]
  simp only [if_neg hmore]
  simp

/-- Only one digit in front of an exponent makes a difference. -/
theorem brief_of_one_digit (h : ¬ (-4 ≤ decimal.leading ∧ decimal.leading ≤ 15))
    (hone : (Nat.toDigits 10 decimal.digits).drop 1 = []) :
    decimal.brief = Nat.toDigits 10 decimal.digits ++ 'e' :: intText decimal.leading ∧
      decimal.print =
        Nat.toDigits 10 decimal.digits ++ ".0e".toList ++ intText decimal.leading := by
  have hall : (Nat.toDigits 10 decimal.digits).take 1 = Nat.toDigits 10 decimal.digits :=
    List.take_of_length_le (List.drop_eq_nil_iff.1 hone)
  rw [brief, print_eq, if_neg h, if_neg h, scientific]
  simp [hone, hall]

/-! ### Putting the fraction in -/

/-- With a sign in front or not, the brief form becomes the printed one. -/
theorem fillFraction_brief (negative : Bool) (decimal : Decimal) :
    fillFraction (Number.signText negative ++ decimal.brief) =
      Number.signText negative ++ decimal.print := by
  have hsign : 'e' ∉ Number.signText negative ∧ '.' ∉ Number.signText negative := by
    cases negative <;> decide
  have hdigits := isDigits_toDigits decimal.digits
  by_cases hplain : -4 ≤ decimal.leading ∧ decimal.leading ≤ 15
  · rw [brief_of_plain hplain]
    apply fillFraction_of_not_mem
    have hbody : 'e' ∉ decimal.print := fun hmem => (e_mem_print_iff decimal).1 hmem hplain
    exact List.not_mem_append hsign.1 hbody
  · by_cases hone : (Nat.toDigits 10 decimal.digits).drop 1 = []
    · obtain ⟨hbrief, hprint⟩ := brief_of_one_digit hplain hone
      have hmark : 'e' ∉ Number.signText negative ++ Nat.toDigits 10 decimal.digits :=
        List.not_mem_append hsign.1 (Number.not_mem_of_isDigits hdigits rfl)
      have hpoint : '.' ∉ Number.signText negative ++ Nat.toDigits 10 decimal.digits :=
        List.not_mem_append hsign.2 (Number.not_mem_of_isDigits hdigits rfl)
      rw [hbrief, hprint, ← List.append_assoc, fillFraction_append hmark, if_neg hpoint]
      simp
    · -- The point stands before the exponent already.
      rw [brief_of_scientific hplain hone]
      have htext : Number.signText negative ++ decimal.print =
          Number.signText negative ++ (Nat.toDigits 10 decimal.digits).take 1 ++
            '.' :: (Nat.toDigits 10 decimal.digits).drop 1 ++ 'e' :: intText decimal.leading := by
        rw [print_eq, if_neg hplain, scientific]
        simp only [if_neg hone]
        simp
      have hmark : 'e' ∉ Number.signText negative ++ (Nat.toDigits 10 decimal.digits).take 1 ++
          '.' :: (Nat.toDigits 10 decimal.digits).drop 1 := by
        have htake := Number.not_mem_of_isDigits (isDigits_take hdigits Nat.one_pos)
          (show 'e'.isDigit = false from rfl)
        have hdrop : 'e' ∉ (Nat.toDigits 10 decimal.digits).drop 1 := fun hmem =>
          e_not_mem_toDigits decimal.digits (List.mem_of_mem_drop hmem)
        simp only [List.mem_append, List.mem_cons, hsign.1, htake, hdrop]
        decide
      rw [htext, fillFraction_append hmark, if_pos (by simp)]

/-! ### Reading the brief form -/

theorem read?_of_exponent (h : IsDigits digits) (exponent : Int) :
    read? (digits ++ 'e' :: intText exponent) = some ⟨Nat.ofDigitChars 10 digits 0, exponent⟩ := by
  have hmark : ∀ c ∈ ('e' :: intText exponent).head?, c.isDigit = false := by
    rintro c ⟨rfl⟩
    rfl
  simp [read?, takeWhile_append_of_head? h.2 hmark, dropWhile_append_of_head? h.2 hmark,
    splitFraction, readExponent?, readInt?_intText, h.1]

theorem brief_reads (decimal : Decimal) (hzero : decimal.magnitude = 0 → decimal.digits = 0)
    (hfinite : decimal.magnitude < Binary64.infinity) :
    ∃ c rest, decimal.brief = c :: rest ∧ c.isDigit = true ∧
      (read? (c :: rest)).map magnitude = some decimal.magnitude := by
  have hprinted : decimal.brief = decimal.print → ∃ c rest, decimal.brief = c :: rest ∧
      c.isDigit = true ∧ (read? (c :: rest)).map magnitude = some decimal.magnitude := by
    intro hbrief
    obtain ⟨c, rest, htext, hdigit⟩ := (printed_print decimal).exists_cons
    refine ⟨c, rest, hbrief.trans htext, hdigit, ?_⟩
    rw [← htext]
    exact (printed_print decimal).map_magnitude hzero hfinite
  by_cases hplain : -4 ≤ decimal.leading ∧ decimal.leading ≤ 15
  · exact hprinted (brief_of_plain hplain)
  · by_cases hone : (Nat.toDigits 10 decimal.digits).drop 1 = []
    · obtain ⟨hbrief, -⟩ := brief_of_one_digit hplain hone
      have hread := read?_of_exponent (isDigits_toDigits decimal.digits) decimal.leading
      have hlength : (Nat.toDigits 10 decimal.digits).length = 1 :=
        Nat.le_antisymm (List.drop_eq_nil_iff.1 hone) Nat.length_toDigits_pos
      have hleading : decimal.leading = decimal.exponent := by
        rw [leading, hlength]
        omega
      obtain ⟨c, rest, htext, hdigit⟩ := (isDigits_toDigits decimal.digits).exists_cons
      rw [Nat.ofDigitChars_ten_toDigits, hleading] at hread
      rw [htext, hleading] at hbrief
      rw [htext] at hread
      refine ⟨c, rest ++ 'e' :: intText decimal.exponent, hbrief, hdigit, ?_⟩
      rw [← List.cons_append, hread]
      rfl
    · exact hprinted (brief_of_scientific hplain hone)

end Decimal

namespace Number

open Binary64

variable {value : Float}

/-- A finite number before a fraction is put in. -/
def brief (value : Float) : Text :=
  signText (isNegative value) ++ (Decimal.shortest (magnitude value)).brief

theorem print_eq_fillFraction (h : magnitude value < infinity) :
    print value = fillFraction (brief value) := by
  rw [print_of_lt h, brief, Decimal.fillFraction_brief]

example : brief 1e20 = "1e20".toList ∧ print 1e20 = "1.0e20".toList := by
  decide +kernel

theorem read?_brief (h : magnitude value < infinity) : read? (brief value) = some value := by
  have hshortest := Decimal.magnitude_shortest h
  obtain ⟨c, rest, htext, hdigit, hread⟩ :=
    Decimal.brief_reads _ (Decimal.digits_shortest_eq_zero h) (by rwa [hshortest])
  rw [hshortest] at hread
  rw [brief, htext, read?_signText_append hdigit hread]

theorem print_of_isInf (h : value.isInf = true) :
    0 < value ∧ print value = "Infinity".toList ∨ value < 0 ∧ print value = "-Infinity".toList := by
  rw [(isInf_eq_and_isNaN_eq value).1, decide_eq_true_eq] at h
  have hvalue := toFloat_magnitude value
  rw [print_of_eq h]
  rw [h] at hvalue
  cases hnegative : isNegative value with
  | true =>
    rw [hnegative] at hvalue
    rw [← hvalue]
    exact .inr ⟨by decide +kernel, rfl⟩
  | false =>
    rw [hnegative] at hvalue
    rw [← hvalue]
    exact .inl ⟨by decide +kernel, rfl⟩

theorem print_injective : Function.Injective print := by
  intro left right h
  have hleft := read?_print left
  rw [h, read?_print right] at hleft
  exact (Option.some.inj hleft).symm

/-- What is printed for a number, and that the number can be read from it. -/
structure Lossless (value : Float) : Prop where
  form : value.isNaN = true ∧ print value = "NaN".toList ∨
    value.isInf = true ∧ 0 < value ∧ print value = "Infinity".toList ∨
    value.isInf = true ∧ value < 0 ∧ print value = "-Infinity".toList ∨
    value.isFinite = true ∧ (Plain (print value) ∨ ∃ exponent, Scientific exponent (print value))
  exponent : value.isFinite = true →
    ('e' ∈ print value ↔ 0 < value.abs ∧ ¬ (1e-4 ≤ value.abs ∧ value.abs < 1e16))
  read : read? (print value) = some value
  distinct : ∀ other, print other = print value → other = value
  filled : value.isFinite = true →
    print value = fillFraction (brief value) ∧ read? (brief value) = some value

theorem lossless (value : Float) : Lossless value where
  form := by
    obtain ⟨hinf, hnan⟩ := isInf_eq_and_isNaN_eq value
    rcases Nat.lt_trichotomy (magnitude value) infinity with hlt | heq | hgt
    · have hfinite : value.isFinite = true := by rw [isFinite_eq, decide_eq_true hlt]
      rcases plain_or_scientific hlt with hplain | ⟨exponent, -, hscientific⟩
      · exact .inr (.inr (.inr ⟨hfinite, .inl hplain⟩))
      · exact .inr (.inr (.inr ⟨hfinite, .inr ⟨exponent, hscientific⟩⟩))
    · have hinfinite : value.isInf = true := by rw [hinf, decide_eq_true heq]
      rcases print_of_isInf hinfinite with hpositive | hnegative
      · exact .inr (.inl ⟨hinfinite, hpositive⟩)
      · exact .inr (.inr (.inl ⟨hinfinite, hnegative⟩))
    · exact .inl ⟨by rw [hnan, decide_eq_true hgt], print_of_gt hgt⟩
  exponent := e_mem_print_iff
  read := read?_print value
  distinct other h := print_injective h
  filled h := by
    rw [isFinite_eq, decide_eq_true_eq] at h
    exact ⟨print_eq_fillFraction h, read?_brief h⟩

end Number

end LineCalculator
