import LineCalculator.Text.Split
import LineCalculator.Token.Lexer

/-!
# What a token looks like

The language of tokens, said without the lexer, and that `leading?` takes exactly such a token: the
longest one at the start of a text. A number looks two characters ahead, since a point belongs to it
only with a digit behind.
-/

namespace LineCalculator

/-- One decimal digit or more. -/
def IsDigits (text : Text) : Prop :=
  text ≠ [] ∧ ∀ c ∈ text, c.isDigit = true

/-- Digits, and behind a point more digits. -/
inductive IsNumber : Text → Prop
  | whole {digits : Text} (h : IsDigits digits) : IsNumber digits
  | decimal {digits fraction : Text} (h : IsDigits digits) (hfraction : IsDigits fraction) :
      IsNumber (digits ++ '.' :: fraction)

/-- A letter or underscore, then letters, underscores and digits. -/
def IsIdentifier (text : Text) : Prop :=
  (∃ c ∈ text.head?, isNameStart c = true) ∧ ∀ c ∈ text, isNamePart c = true

inductive IsLexeme : Token → Prop
  | number {content : Text} (h : IsNumber content) : IsLexeme ⟨content, .number⟩
  | identifier {content : Text} (h : IsIdentifier content) : IsLexeme ⟨content, .identifier⟩
  | operator {sign : Char} (h : sign ∈ ['+', '-', '*', '/', '^']) : IsLexeme ⟨[sign], .operator⟩
  | punctuation {sign : Char} (h : sign ∈ ['(', ')']) : IsLexeme ⟨[sign], .punctuation⟩

/-- Whether a token is as long as it can be in front of a text. -/
def Token.EndsBefore (token : Token) (rest : Text) : Prop :=
  match token.kind with
  | .number =>
    (∀ c ∈ rest.head?, c.isDigit = false) ∧
      ('.' ∉ token.content → ∀ d after, rest = '.' :: d :: after → d.isDigit = false)
  | .identifier => ∀ c ∈ rest.head?, isNamePart c = false
  | .operator | .punctuation => True

theorem IsDigits.exists_cons {digits : Text} (h : IsDigits digits) :
    ∃ c rest, digits = c :: rest ∧ c.isDigit = true := by
  cases digits with
  | nil => exact absurd rfl h.1
  | cons c rest => exact ⟨c, rest, rfl, h.2 c List.mem_cons_self⟩

theorem IsNumber.exists_cons {content : Text} (h : IsNumber content) :
    ∃ c rest, content = c :: rest ∧ c.isDigit = true := by
  cases h with
  | whole h => exact h.exists_cons
  | decimal h _ =>
    obtain ⟨c, rest, rfl, hc⟩ := h.exists_cons
    exact ⟨c, _, rfl, hc⟩

theorem isIdentifier_of_isVariableName {content : Text} (h : isVariableName content = true) :
    IsIdentifier content := by
  obtain ⟨hne, hletters⟩ := isVariableName_iff.1 h
  refine ⟨⟨content.head hne, List.head_mem_head? hne, ?_⟩, fun c hc => ?_⟩
  · simp [isNameStart, hletters _ (List.head_mem hne)]
  · simp [isNamePart, Char.isAlphanum, hletters c hc]

/-! ### A token in front of a text in which it ends is taken whole -/

theorem splitNumber_whole {digits rest : Text} (h : IsDigits digits)
    (hrest : (⟨digits, .number⟩ : Token).EndsBefore rest) :
    splitNumber (digits ++ rest) = (digits, rest) := by
  obtain ⟨hhead, hpoint⟩ := hrest
  simp only [splitNumber, takeWhile_append_of_head? h.2 hhead, dropWhile_append_of_head? h.2 hhead]
  split
  next after =>
    have hnone : after.takeWhile Char.isDigit = [] := by
      cases after with
      | nil => rfl
      | cons d tail =>
        have hdigit := hpoint (fun hmem => absurd (h.2 '.' hmem) (by decide)) d tail rfl
        simp [hdigit]
    simp [hnone]
  next => rfl

theorem splitNumber_decimal {digits fraction rest : Text} (h : IsDigits digits)
    (hfraction : IsDigits fraction)
    (hrest : ∀ c ∈ rest.head?, c.isDigit = false) :
    splitNumber (digits ++ '.' :: fraction ++ rest) = (digits ++ '.' :: fraction, rest) := by
  have hpoint : ∀ c ∈ ('.' :: fraction ++ rest).head?, c.isDigit = false := by
    rintro c ⟨rfl⟩
    rfl
  rw [List.append_assoc]
  simp only [splitNumber, takeWhile_append_of_head? h.2 hpoint, dropWhile_append_of_head? h.2 hpoint]
  simp [takeWhile_append_of_head? hfraction.2 hrest, dropWhile_append_of_head? hfraction.2 hrest,
    hfraction.1]

theorem splitNumber_of_isNumber {content rest : Text} (h : IsNumber content)
    (hrest : (⟨content, .number⟩ : Token).EndsBefore rest) :
    splitNumber (content ++ rest) = (content, rest) := by
  cases h with
  | whole h => exact splitNumber_whole h hrest
  | decimal h hfraction => exact splitNumber_decimal h hfraction hrest.1

theorem leading?_cons {c : Char} {kind : TokenKind} (h : TokenKind.startedBy? c = some kind)
    (rest : Text) :
    leading? (c :: rest) =
      some (⟨(splitToken kind (c :: rest)).1, kind⟩, (splitToken kind (c :: rest)).2) := by
  rw [leading?, h]
  rfl

theorem leading?_of_isLexeme {token : Token} {rest : Text} (h : IsLexeme token)
    (hrest : token.EndsBefore rest) : leading? (token.content ++ rest) = some (token, rest) := by
  cases h with
  | number hnumber =>
    obtain ⟨c, tail, rfl, hc⟩ := hnumber.exists_cons
    rw [List.cons_append, leading?_cons (startedBy?_eq_number.2 hc), ← List.cons_append]
    simp only [splitToken, splitNumber_of_isNumber hnumber hrest]
  | identifier hidentifier =>
    obtain ⟨⟨c, hhead, hstart⟩, hpart⟩ := hidentifier
    obtain ⟨tail, rfl⟩ := List.head?_eq_some_iff.1 hhead
    rw [List.cons_append, leading?_cons (startedBy?_eq_identifier.2 hstart), ← List.cons_append]
    simp only [splitToken, takeWhile_append_of_head? hpart hrest, dropWhile_append_of_head? hpart hrest]
  | operator hsign => exact leading?_cons (startedBy?_eq_operator.2 (by simpa using hsign)) rest
  | punctuation hsign => exact leading?_cons (startedBy?_eq_punctuation.2 (by simpa using hsign)) rest

/-! ### What is taken is a token, ends there, and nothing is lost -/

theorem isDigits_takeWhile {c : Char} (h : c.isDigit = true) (rest : Text) :
    IsDigits ((c :: rest).takeWhile Char.isDigit) :=
  ⟨by simp [h], fun _ => mem_takeWhile⟩

theorem splitNumber_sound {c : Char} (h : c.isDigit = true) (rest : Text) {content after : Text}
    (hsplit : splitNumber (c :: rest) = (content, after)) :
    IsLexeme ⟨content, .number⟩ ∧ (⟨content, .number⟩ : Token).EndsBefore after ∧
      c :: rest = content ++ after := by
  have hdigits := isDigits_takeWhile h rest
  have hstop : ∀ d ∈ ((c :: rest).dropWhile Char.isDigit).head?, d.isDigit = false := fun _ =>
    not_of_mem_head?_dropWhile
  have hjoin := List.takeWhile_append_dropWhile (p := Char.isDigit) (l := c :: rest)
  unfold splitNumber at hsplit
  generalize (c :: rest).takeWhile Char.isDigit = whole at *
  generalize (c :: rest).dropWhile Char.isDigit = left at *
  split at hsplit
  next tail =>
    dsimp only at hsplit
    split at hsplit
    next hnone =>
      cases hsplit
      refine ⟨.number (.whole hdigits), ⟨hstop, ?_⟩, hjoin.symm⟩
      rintro - d more ⟨⟩
      rw [List.isEmpty_iff] at hnone
      cases hd : d.isDigit with
      | false => rfl
      | true => simp [hd] at hnone
    next hsome =>
      cases hsplit
      have hfraction : IsDigits (tail.takeWhile Char.isDigit) :=
        ⟨by simpa using hsome, fun _ => mem_takeWhile⟩
      refine ⟨.number (.decimal hdigits hfraction),
        ⟨fun _ => not_of_mem_head?_dropWhile, fun hpoint => absurd (by simp) hpoint⟩, ?_⟩
      rw [List.append_assoc, List.cons_append, List.takeWhile_append_dropWhile, hjoin]
  next hpoint =>
    cases hsplit
    refine ⟨.number (.whole hdigits), ⟨hstop, ?_⟩, hjoin.symm⟩
    rintro - d more rfl
    exact absurd rfl (hpoint _)

theorem leading?_sound {text rest : Text} {token : Token} (h : leading? text = some (token, rest)) :
    IsLexeme token ∧ token.EndsBefore rest ∧ text = token.content ++ rest := by
  cases text with
  | nil => simp [leading?] at h
  | cons c tail =>
    simp only [leading?, Option.map_eq_some_iff, Prod.mk.injEq] at h
    obtain ⟨kind, hkind, rfl, rfl⟩ := h
    cases kind with
    | number => exact splitNumber_sound (startedBy?_eq_number.1 hkind) tail rfl
    | identifier =>
      have hstart := startedBy?_eq_identifier.1 hkind
      have hidentifier : IsIdentifier ((c :: tail).takeWhile isNamePart) :=
        ⟨⟨c, by simp [isNamePart_of_isNameStart hstart], hstart⟩, fun _ => mem_takeWhile⟩
      exact ⟨.identifier hidentifier, fun _ => not_of_mem_head?_dropWhile,
        List.takeWhile_append_dropWhile.symm⟩
    | operator => exact ⟨.operator (by simpa using startedBy?_eq_operator.1 hkind), trivial, rfl⟩
    | punctuation =>
      exact ⟨.punctuation (by simpa using startedBy?_eq_punctuation.1 hkind), trivial, rfl⟩

theorem leading?_eq_none_iff {text : Text} :
    leading? text = none ↔ ∀ c ∈ text.head?, startsToken c = false := by
  cases text with
  | nil => simp [leading?]
  | cons c rest => simp [leading?, startsToken]

/-! ### Characters of tokens -/

/-- A token consists of characters that start tokens, but for the point of a number. -/
theorem IsLexeme.startsToken_or_point {token : Token} (h : IsLexeme token) {c : Char}
    (hc : c ∈ token.content) : startsToken c = true ∨ c = '.' := by
  have hdigit : ∀ {digits : Text}, IsDigits digits → c ∈ digits → startsToken c = true := fun hd hmem =>
    startsToken_of_isNamePart (by simp [isNamePart, Char.isAlphanum, hd.2 c hmem])
  cases h with
  | number hnumber =>
    cases hnumber with
    | whole h => exact .inl (hdigit h hc)
    | decimal h hfraction =>
      rw [List.mem_append, List.mem_cons] at hc
      rcases hc with hc | hc | hc
      · exact .inl (hdigit h hc)
      · exact .inr hc
      · exact .inl (hdigit hfraction hc)
  | identifier hidentifier => exact .inl (startsToken_of_isNamePart (hidentifier.2 c hc))
  | operator hsign =>
    obtain rfl := List.mem_singleton.1 hc
    simp [startsToken, startedBy?_eq_operator.2 (by simpa using hsign)]
  | punctuation hsign =>
    obtain rfl := List.mem_singleton.1 hc
    simp [startsToken, startedBy?_eq_punctuation.2 (by simpa using hsign)]

theorem IsLexeme.equals_not_mem {token : Token} (h : IsLexeme token) : '=' ∉ token.content := by
  intro hmem
  rcases h.startsToken_or_point hmem with hc | hc <;> revert hc <;> decide

end LineCalculator
