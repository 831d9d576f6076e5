import LineCalculator.Proofs.Token.Gaps
import LineCalculator.Proofs.Token.Spacing

/-!
# What stands at the ends of a text

Blanks at the ends of a text only make its first and last gap longer, and a gap is trimmed before it
is looked at, so lexing does not see them. A parenthesis at an end is a token of its own, and the gap
beside it is the one that was at the end before.
-/

namespace LineCalculator

variable {lexing : Lexing} {text blanks : Text}

/-- What is put behind a text is lexed behind it, if that is so where the text has no tokens. -/
theorem lex_append {tail : Text} {more : List Token}
    (htail : ∀ c ∈ tail.head?, isNamePart c = false ∧ c ≠ '.')
    (hgap : ∀ skipped : Text, (∀ c ∈ skipped, startsToken c = false) →
      lex lexing (skipped ++ tail) = do return (← lex lexing skipped) ++ more) (text : Text) :
    lex lexing (text ++ tail) = do return (← lex lexing text) ++ more := by
  obtain ⟨gaps, tokens, hparted⟩ := exists_parted text
  induction hparted with
  | last h => exact hgap _ h
  | @token skipped rest token gaps tokens h hlexeme hends hrest ih =>
    rw [List.append_assoc, List.append_assoc, lex_gap_token lexing h hlexeme (hends.append htail), ih,
      lex_gap_token lexing h hlexeme hends]
    cases lexing.checkGap skipped with
    | error failure => rfl
    | ok done => cases lex lexing rest <;> rfl

theorem Lexing.checkGap_nil (lexing : Lexing) : lexing.checkGap [] = .ok () := by
  cases lexing <;> rfl

/-! ### Blanks -/

theorem Lexing.checkGap_blanks_append (lexing : Lexing) (h : ∀ c ∈ blanks, isBlank c = true)
    (skipped : Text) : lexing.checkGap (blanks ++ skipped) = lexing.checkGap skipped := by
  have htrim : trim (blanks ++ skipped ++ []) = trim skipped :=
    trim_append h blank_nil
  rw [List.append_nil] at htrim
  rw [checkGap, checkGap, htrim]

theorem Lexing.checkGap_append_blanks (lexing : Lexing) (h : ∀ c ∈ blanks, isBlank c = true)
    (skipped : Text) : lexing.checkGap (skipped ++ blanks) = lexing.checkGap skipped := by
  have htrim : trim ([] ++ skipped ++ blanks) = trim skipped :=
    trim_append blank_nil h
  rw [List.nil_append] at htrim
  rw [checkGap, checkGap, htrim]

theorem lex_blanks_append (lexing : Lexing) (h : ∀ c ∈ blanks, isBlank c = true) (text : Text) :
    lex lexing (blanks ++ text) = lex lexing text := by
  have hskipped : ∀ c ∈ blanks, (!startsToken c) = true := fun c hc => by
    rw [not_startsToken_of_isBlank (h c hc), Bool.not_false]
  have hgap : gap (blanks ++ text) = blanks ++ gap text := List.takeWhile_append_of_pos hskipped
  have hnext : next? (blanks ++ text) = next? text := by
    rw [next?, next?, List.dropWhile_append_of_pos hskipped]
  rw [lex_eq, lex_eq, hgap, hnext, lexing.checkGap_blanks_append h]

theorem lex_append_blanks (lexing : Lexing) (h : ∀ c ∈ blanks, isBlank c = true) (text : Text) :
    lex lexing (text ++ blanks) = lex lexing text := by
  have htail : ∀ c ∈ blanks.head?, isNamePart c = false ∧ c ≠ '.' := fun c hc =>
    isNamePart_and_ne_point_of_isBlank (h c (List.mem_of_mem_head? hc))
  have hgap : ∀ skipped : Text, (∀ c ∈ skipped, startsToken c = false) →
      lex lexing (skipped ++ blanks) = do return (← lex lexing skipped) ++ [] := by
    intro skipped hskipped
    have hboth : ∀ c ∈ skipped ++ blanks, startsToken c = false := fun c hc =>
      (List.mem_append.1 hc).elim (hskipped c) fun hmem => not_startsToken_of_isBlank (h c hmem)
    rw [lex_gap lexing hboth, lex_gap lexing hskipped, lexing.checkGap_append_blanks h]
    cases lexing.checkGap skipped <;> rfl
  rw [lex_append htail hgap text]
  cases lex lexing text with
  | error failure => rfl
  | ok tokens => exact congrArg Except.ok (List.append_nil tokens)

theorem lex_trim (lexing : Lexing) (text : Text) : lex lexing (trim text) = lex lexing text := by
  obtain ⟨left, right, hleft, hright, htext⟩ := exists_trim text
  conv => rhs; rw [htext]
  rw [lex_append_blanks lexing hright, lex_blanks_append lexing hleft]

/-! ### Parentheses -/

theorem lex_leftParen_cons (lexing : Lexing) (text : Text) :
    lex lexing ('(' :: text) = do return ⟨['('], .punctuation⟩ :: (← lex lexing text) := by
  have hlexeme : IsLexeme ⟨['('], .punctuation⟩ := .punctuation (by simp)
  have hends : (⟨['('], .punctuation⟩ : Token).EndsBefore text := trivial
  have hlex := lex_gap_token lexing (List.forall_mem_nil _) hlexeme hends
  rw [List.nil_append, lexing.checkGap_nil] at hlex
  exact hlex

theorem lex_append_rightParen (lexing : Lexing) (text : Text) :
    lex lexing (text ++ [')']) = do return (← lex lexing text) ++ [⟨[')'], .punctuation⟩] := by
  have hlexeme : IsLexeme ⟨[')'], .punctuation⟩ := .punctuation (by simp)
  apply lex_append
  · rintro c ⟨rfl⟩
    decide
  · intro skipped hskipped
    have hends : (⟨[')'], .punctuation⟩ : Token).EndsBefore [] := trivial
    have hlex := lex_gap_token lexing hskipped hlexeme hends
    rw [List.append_nil] at hlex
    rw [hlex, lex_gap lexing (List.forall_mem_nil _), lex_gap lexing hskipped, lexing.checkGap_nil]
    cases lexing.checkGap skipped <;> rfl

end LineCalculator
