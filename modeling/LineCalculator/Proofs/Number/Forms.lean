import LineCalculator.Proofs.Number.Literal
import LineCalculator.Proofs.SignRun.Runs
import Mathlib.Data.List.TakeWhile

/-!
# Forms of literals

A text without letters is a literal when it is digits with an optional point, which needs a digit on
one side only, and an optional sign in front. The words and the exponents of other literals have
letters. Two of these forms hold more than a number token does: the point of `5.` and of `.5` is the
text's, but no token's.
-/

namespace LineCalculator

/-- Digits with an optional point. -/
inductive IsUnsigned : Text → Prop
  | whole {digits : Text} (h : IsDigits digits) : IsUnsigned digits
  | pointed {digits : Text} (h : IsDigits digits) : IsUnsigned (digits ++ ['.'])
  | decimal {digits fraction : Text} (h : IsDigits digits) (hfraction : IsDigits fraction) :
      IsUnsigned (digits ++ '.' :: fraction)
  | fraction {digits : Text} (h : IsDigits digits) : IsUnsigned ('.' :: digits)

inductive IsLiteral : Text → Prop
  | unsigned {text : Text} (h : IsUnsigned text) : IsLiteral text
  | signed {sign : Char} {text : Text} (hsign : isSign sign = true) (h : IsUnsigned text) :
      IsLiteral (sign :: text)

variable {text digits : Text} {sign c : Char}

theorem hasLetter_eq_false_iff : hasLetter text = false ↔ ∀ c ∈ text, c.isAlpha = false := by
  simp [hasLetter]

theorem IsNumber.isUnsigned (h : IsNumber text) : IsUnsigned text := by
  cases h with
  | whole h => exact .whole h
  | decimal h hfraction => exact .decimal h hfraction

theorem IsUnsigned.isDigit_or_point (h : IsUnsigned text) (hc : c ∈ text) :
    c.isDigit = true ∨ c = '.' := by
  cases h with
  | whole h => exact .inl (h.2 c hc)
  | pointed h =>
    rcases List.mem_append.1 hc with hc | hc
    · exact .inl (h.2 c hc)
    · exact .inr (List.mem_singleton.1 hc)
  | decimal h hfraction =>
    rcases List.mem_append.1 hc with hc | hc
    · exact .inl (h.2 c hc)
    · exact (List.mem_cons.1 hc).symm.imp_left (hfraction.2 c)
  | fraction h => exact (List.mem_cons.1 hc).symm.imp_left (h.2 c)

theorem IsUnsigned.not_isFoldable (h : IsUnsigned text) (hc : c ∈ text) :
    isFoldable c = false := by
  rw [not_isFoldable_iff]
  rcases h.isDigit_or_point hc with hdigit | rfl
  · refine ⟨?_, ?_, ?_, ?_⟩ <;> rintro rfl <;> cases hdigit
  · decide

theorem IsUnsigned.not_isSign (h : IsUnsigned text) (hc : c ∈ text) : isSign c = false :=
  not_isSign_of_not_isFoldable (h.not_isFoldable hc)

/-! ### What is read of them -/

namespace Decimal

theorem read?_pointed (h : IsDigits digits) :
    read? (digits ++ ['.']) = some ⟨Nat.ofDigitChars 10 digits 0, 0⟩ := by
  have hdigit : ∀ c ∈ ([] : Text), c.isDigit = true := List.forall_mem_nil _
  have hrest : ∀ c ∈ ([] : Text).head?, c.isDigit = false := by simp
  have hread := read?_of_parts h.2 hdigit (by simp [h.1]) hrest
  rw [List.append_nil, List.append_nil] at hread
  exact hread

theorem read?_fraction (h : IsDigits digits) :
    read? ('.' :: digits) = some ⟨Nat.ofDigitChars 10 digits 0, -digits.length⟩ := by
  have hdigit : ∀ c ∈ ([] : Text), c.isDigit = true := List.forall_mem_nil _
  have hrest : ∀ c ∈ ([] : Text).head?, c.isDigit = false := by simp
  have hread := read?_of_parts hdigit h.2 (by simp [h.1]) hrest
  rw [List.append_nil] at hread
  simpa [readExponent?] using hread

theorem exists_read?_of_isUnsigned (h : IsUnsigned text) : ∃ decimal, read? text = some decimal := by
  cases h with
  | whole h => exact ⟨_, read?_of_isDigits h⟩
  | pointed h => exact ⟨_, read?_pointed h⟩
  | decimal h hfraction => exact exists_read?_of_isNumber (.decimal h hfraction)
  | fraction h => exact ⟨_, read?_fraction h⟩

/-- Without letters there is no exponent to read. -/
theorem eq_nil_of_readExponent? (hletter : ∀ c ∈ text, c.isAlpha = false) {exponent : Int}
    (h : readExponent? text = some exponent) : text = [] := by
  cases text with
  | nil => rfl
  | cons mark rest =>
    have hmark := hletter mark List.mem_cons_self
    rw [readExponent?] at h
    split at h
    next hexponent => rcases hexponent with rfl | rfl <;> cases hmark
    next => cases h

theorem isUnsigned_of_read? (hletter : ∀ c ∈ text, c.isAlpha = false) {decimal : Decimal}
    (h : read? text = some decimal) : IsUnsigned text := by
  have hsplit := List.takeWhile_append_dropWhile (p := Char.isDigit) (l := text)
  have hwhole : ∀ c ∈ text.takeWhile Char.isDigit, c.isDigit = true := fun _ => mem_takeWhile
  have hnone : ∀ c ∈ text.dropWhile Char.isDigit, c.isAlpha = false := fun c hc =>
    hletter c ((List.dropWhile_sublist _).subset hc)
  rw [read?] at h
  generalize text.takeWhile Char.isDigit = whole at *
  generalize text.dropWhile Char.isDigit = behind at *
  subst hsplit
  dsimp only at h
  split at h
  next => cases h
  next hsome =>
    obtain ⟨exponent, hexponent, -⟩ := Option.map_eq_some_iff.1 h
    unfold splitFraction at hsome hexponent
    split at hexponent
    next rest =>
      -- All that follows the point is digits, and one side of it has some.
      have hrest : ∀ c ∈ rest.dropWhile Char.isDigit, c.isAlpha = false := fun c hc =>
        hnone c (List.mem_cons_of_mem _ ((List.dropWhile_sublist _).subset hc))
      have hfraction := forall_of_dropWhile_eq_nil (eq_nil_of_readExponent? hrest hexponent)
      have hall : rest.takeWhile Char.isDigit = rest := List.takeWhile_eq_self_iff.2 hfraction
      change ¬whole ++ rest.takeWhile Char.isDigit = [] at hsome
      rw [hall] at hsome
      by_cases hne : whole = []
      · subst hne
        exact .fraction ⟨hsome, hfraction⟩
      · by_cases hempty : rest = []
        · subst hempty
          exact .pointed ⟨hne, hwhole⟩
        · exact .decimal ⟨hne, hwhole⟩ ⟨hempty, hfraction⟩
    next =>
      obtain rfl := eq_nil_of_readExponent? hnone hexponent
      rw [List.append_nil] at hsome ⊢
      exact .whole ⟨hsome, hwhole⟩

end Decimal

namespace Number

theorem readMagnitude?_of_not_hasLetter (hletter : ∀ c ∈ text, c.isAlpha = false) :
    readMagnitude? text = (Decimal.read? text).map Decimal.magnitude :=
  readMagnitude?_of_head? fun c hc => hletter c (List.mem_of_head? hc)

theorem read?_of_not_isSign (h : ∀ c ∈ text.head?, isSign c = false) :
    read? text = (readMagnitude? text).map (Binary64.toFloat false) := by
  unfold read?
  split
  next => cases h '+' rfl
  next => cases h '-' rfl
  next => rfl

/-- A sign only picks the double. -/
theorem read?_sign (hsign : isSign sign = true) (text : Text) :
    read? (sign :: text) = (readMagnitude? text).map (Binary64.toFloat (sign == '-')) := by
  rcases isSign_iff.1 hsign with rfl | rfl <;> rfl

theorem exists_read?_of_isLiteral (hletter : hasLetter text = false) (h : IsLiteral text) :
    ∃ value, read? text = some value := by
  rw [hasLetter_eq_false_iff] at hletter
  cases h with
  | unsigned h =>
    obtain ⟨decimal, hdecimal⟩ := Decimal.exists_read?_of_isUnsigned h
    rw [read?_of_not_isSign fun c hc => h.not_isSign (List.mem_of_head? hc),
      readMagnitude?_of_not_hasLetter hletter, hdecimal]
    exact ⟨_, rfl⟩
  | @signed sign rest hsign h =>
    have hrest : ∀ c ∈ rest, c.isAlpha = false := fun c hc => hletter c (List.mem_cons_of_mem _ hc)
    obtain ⟨decimal, hdecimal⟩ := Decimal.exists_read?_of_isUnsigned h
    rw [read?_sign hsign, readMagnitude?_of_not_hasLetter hrest, hdecimal]
    exact ⟨_, rfl⟩

theorem isUnsigned_of_readMagnitude? (hletter : ∀ c ∈ text, c.isAlpha = false) {bits : Nat}
    (h : readMagnitude? text = some bits) : IsUnsigned text := by
  rw [readMagnitude?_of_not_hasLetter hletter] at h
  obtain ⟨decimal, hdecimal, -⟩ := Option.map_eq_some_iff.1 h
  exact Decimal.isUnsigned_of_read? hletter hdecimal

/-- Of the texts without letters exactly these forms are read as literals. -/
theorem isLiteral_of_read? (hletter : hasLetter text = false) {value : Float}
    (h : read? text = some value) : IsLiteral text := by
  rw [hasLetter_eq_false_iff] at hletter
  by_cases hhead : ∀ c ∈ text.head?, isSign c = false
  · rw [read?_of_not_isSign hhead] at h
    obtain ⟨bits, hbits, -⟩ := Option.map_eq_some_iff.1 h
    exact .unsigned (isUnsigned_of_readMagnitude? hletter hbits)
  · obtain ⟨sign, hmem, hsign⟩ : ∃ c ∈ text.head?, isSign c = true := by simpa using hhead
    obtain ⟨rest, rfl⟩ := List.head?_eq_some_iff.1 hmem
    rw [read?_sign hsign] at h
    obtain ⟨bits, hbits, -⟩ := Option.map_eq_some_iff.1 h
    have hrest : ∀ c ∈ rest, c.isAlpha = false := fun c hc => hletter c (List.mem_cons_of_mem _ hc)
    exact .signed hsign (isUnsigned_of_readMagnitude? hrest hbits)

theorem read?_pointed (h : IsDigits digits) : read? (digits ++ ['.']) = read? digits := by
  obtain ⟨c, rest, rfl, hc⟩ := h.exists_cons
  have hpointed := read?_of_isDigit false hc (rest ++ ['.'])
  have hwhole := read?_of_isDigit false hc rest
  change read? (c :: (rest ++ ['.'])) = _ at hpointed
  change read? (c :: rest) = _ at hwhole
  rw [List.cons_append, hpointed, hwhole, ← List.cons_append, Decimal.read?_pointed h,
    Decimal.read?_of_isDigits h]

end Number

end LineCalculator
