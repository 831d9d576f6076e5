import LineCalculator.Number.Printed
import LineCalculator.Number.Literal
import LineCalculator.Token.Lexeme

/-!
# Reading literals

What is read of a text that starts with a digit, by the digits before and behind its point and the
exponent that follows. None of the words for infinity and for no number starts with a digit, and a
sign in front only picks the double.
-/

namespace LineCalculator

variable {digits whole fraction rest content : Text}

theorem isDigits_toDigits (n : Nat) : IsDigits (Nat.toDigits 10 n) :=
  ⟨Nat.toDigits_ne_nil, fun _ => Nat.isDigit_of_mem_toDigits (by decide) (by decide)⟩

namespace Decimal

/-! ### Digits with or without a point -/

theorem read?_of_isDigits (h : IsDigits digits) :
    read? digits = some ⟨Nat.ofDigitChars 10 digits 0, 0⟩ := by
  have hwhole : digits.takeWhile Char.isDigit = digits := by
    have hnone : ∀ c ∈ ([] : Text).head?, c.isDigit = false := by simp
    have hsplit := takeWhile_append_of_head? h.2 hnone
    rwa [List.append_nil] at hsplit
  have hnone : digits.dropWhile Char.isDigit = [] := dropWhile_eq_nil_of_forall h.2
  simp [read?, hwhole, hnone, splitFraction, readExponent?, h.1]

/-- The digits around a point are read as one number, and one side may have none. -/
theorem read?_of_parts (hwhole : ∀ c ∈ whole, c.isDigit = true)
    (hfraction : ∀ c ∈ fraction, c.isDigit = true) (hsome : whole ++ fraction ≠ [])
    (hrest : ∀ c ∈ rest.head?, c.isDigit = false) :
    read? (whole ++ '.' :: (fraction ++ rest)) =
      (readExponent? rest).map fun exponent =>
        ⟨Nat.ofDigitChars 10 (whole ++ fraction) 0, exponent - fraction.length⟩ := by
  have hpoint : ∀ c ∈ ('.' :: (fraction ++ rest)).head?, c.isDigit = false := by
    rintro c ⟨rfl⟩
    rfl
  simp only [read?, takeWhile_append_of_head? hwhole hpoint,
    dropWhile_append_of_head? hwhole hpoint, splitFraction,
    takeWhile_append_of_head? hfraction hrest, dropWhile_append_of_head? hfraction hrest]
  rw [if_neg hsome]

theorem read?_of_point (hwhole : IsDigits whole) (hfraction : IsDigits fraction)
    (hrest : ∀ c ∈ rest.head?, c.isDigit = false) :
    read? (whole ++ '.' :: (fraction ++ rest)) =
      (readExponent? rest).map fun exponent =>
        ⟨Nat.ofDigitChars 10 (whole ++ fraction) 0, exponent - fraction.length⟩ :=
  read?_of_parts hwhole.2 hfraction.2 (by simp [hwhole.1]) hrest

theorem exists_read?_of_isNumber (h : IsNumber content) :
    ∃ decimal, read? content = some decimal := by
  cases h with
  | whole h => exact ⟨_, read?_of_isDigits h⟩
  | decimal h hfraction =>
    have hnone : ∀ c ∈ ([] : Text).head?, c.isDigit = false := by simp
    have hread := read?_of_point h hfraction hnone
    rw [List.append_nil] at hread
    exact ⟨_, hread⟩

/-! ### Exponents -/

theorem readNat?_toDigits (n : Nat) : readNat? (Nat.toDigits 10 n) = some n := by
  have hdigits := isDigits_toDigits n
  rw [readNat?, if_pos ⟨hdigits.1, List.all_eq_true.2 hdigits.2⟩, Nat.ofDigitChars_ten_toDigits]

theorem readInt?_of_isDigits (h : IsDigits digits) :
    readInt? digits = (readNat? digits).map Int.ofNat := by
  obtain ⟨c, rest, rfl, hdigit⟩ := h.exists_cons
  unfold readInt?
  split
  next heq =>
    cases heq
    cases hdigit
  next heq =>
    cases heq
    cases hdigit
  next => rfl

theorem readInt?_intText (value : Int) : readInt? (intText value) = some value := by
  rw [intText]
  split
  next hneg =>
    rw [readInt?, readNat?_toDigits]
    change some (-(value.natAbs : Int)) = some value
    rw [Int.ofNat_natAbs_of_nonpos (by omega), Int.neg_neg]
  next hpos =>
    rw [readInt?_of_isDigits (isDigits_toDigits _), readNat?_toDigits]
    change some (value.natAbs : Int) = some value
    rw [Int.natAbs_of_nonneg (by omega)]

theorem intText_natCast (n : Nat) : intText n = Nat.toDigits 10 n := by
  rw [intText, if_neg (by omega), Int.natAbs_natCast]

theorem intText_neg_natCast {n : Nat} (h : 0 < n) : intText (-n) = '-' :: Nat.toDigits 10 n := by
  rw [intText, if_pos (by omega), Int.natAbs_neg, Int.natAbs_natCast]

end Decimal

namespace Number

/-! ### Signs and words -/

variable {c : Char}

theorem toLower_of_not_isAlpha (h : c.isAlpha = false) : c.toLower = c := by
  obtain ⟨hupper, -⟩ := Bool.or_eq_false_iff.1 h
  exact dif_neg (of_decide_eq_false hupper)

/-- A text that starts with no letter is none of the words. -/
theorem readMagnitude?_of_head? {text : Text} (h : ∀ c ∈ text.head?, c.isAlpha = false) :
    readMagnitude? text = (Decimal.read? text).map Decimal.magnitude := by
  have hword : ∀ (first : Char) (word : Text), first.isAlpha = true →
      text.map Char.toLower ≠ first :: word := by
    intro first word hfirst heq
    obtain ⟨c, rest, rfl, hc, -⟩ := List.map_eq_cons_iff.1 heq
    have hnot := h c rfl
    rw [toLower_of_not_isAlpha hnot] at hc
    rw [← hc, hnot] at hfirst
    cases hfirst
  have hinf : text.map Char.toLower ≠ "inf".toList := hword 'i' _ rfl
  have hinfinity : text.map Char.toLower ≠ "infinity".toList := hword 'i' _ rfl
  have hnan : text.map Char.toLower ≠ "nan".toList := hword 'n' _ rfl
  rw [readMagnitude?, if_neg (not_or.2 ⟨hinf, hinfinity⟩), if_neg hnan]

theorem readMagnitude?_of_isDigit (h : c.isDigit = true) (rest : Text) :
    readMagnitude? (c :: rest) = (Decimal.read? (c :: rest)).map Decimal.magnitude := by
  apply readMagnitude?_of_head?
  rintro d ⟨rfl⟩
  exact not_isAlpha_of_isDigit h

def signText (negative : Bool) : Text :=
  if negative then ['-'] else []

theorem read?_of_isDigit (negative : Bool) (h : c.isDigit = true) (rest : Text) :
    read? (signText negative ++ c :: rest) =
      (Decimal.read? (c :: rest)).map fun decimal => Binary64.toFloat negative decimal.magnitude := by
  cases negative with
  | true =>
    change (readMagnitude? (c :: rest)).map (Binary64.toFloat true) = _
    rw [readMagnitude?_of_isDigit h, Option.map_map]
    rfl
  | false =>
    change read? (c :: rest) = _
    unfold read?
    split
    next heq =>
      cases heq
      cases h
    next heq =>
      cases heq
      cases h
    next =>
      rw [readMagnitude?_of_isDigit h, Option.map_map]
      rfl

theorem exists_read?_of_isNumber {content : Text} (h : IsNumber content) :
    ∃ value, read? content = some value := by
  obtain ⟨decimal, hdecimal⟩ := Decimal.exists_read?_of_isNumber h
  obtain ⟨c, rest, rfl, hdigit⟩ := h.exists_cons
  have hread := read?_of_isDigit false hdigit rest
  rw [hdecimal] at hread
  exact ⟨_, hread⟩

end Number

end LineCalculator
