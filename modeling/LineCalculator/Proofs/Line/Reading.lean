import LineCalculator.Line
import LineCalculator.Proofs.Token.Spacing

/-!
# Reading an assignment

Blanks around a name and around what is assigned to it make no difference to what is read. The value
that is read is fixed by reading: it has no blanks at its ends, it is not empty, it has the tokens of
the text that it was read from, and read as a value once more it is itself.
-/

namespace LineCalculator

variable {lexing : Lexing} {name value text : Text}

theorem trim_of_isVariableName (h : isVariableName name = true) : trim name = name := by
  obtain ⟨-, hletters⟩ := isVariableName_iff.1 h
  apply trim_eq_self
  · exact fun c hc => not_isBlank_of_isAlpha (hletters c (List.mem_of_head? hc))
  · exact fun c hc => not_isBlank_of_isAlpha (hletters c (List.mem_of_getLast? hc))

theorem equals_not_mem_of_isVariableName (h : isVariableName name = true) : '=' ∉ name := by
  intro hmem
  have halpha := (isVariableName_iff.1 h).2 '=' hmem
  cases halpha

theorem tokenize_trim (lexing : Lexing) (text : Text) :
    tokenize lexing (trim text) = tokenize lexing text := by
  rw [tokenize, foldSigns_trim, tokenize]

namespace Line

theorem read_of_isVariableName {before between behind after : Text} (lexing : Lexing)
    (hname : isVariableName name = true) (hequals : '=' ∉ value) (hne : trim value ≠ [])
    (hbefore : ∀ c ∈ before, isBlank c = true) (hbetween : ∀ c ∈ between, isBlank c = true)
    (hbehind : ∀ c ∈ behind, isBlank c = true) (hafter : ∀ c ∈ after, isBlank c = true) :
    read lexing (before ++ name ++ between ++ '=' :: (behind ++ value ++ after)) = do
      return .assignment name (← readValue lexing (trim value)) := by
  have hblank : isBlank '=' = false := by decide
  have hleft : '=' ∉ before ++ name ++ between := by
    rw [mem_append_blanks_iff hblank hbefore hbetween]
    exact equals_not_mem_of_isVariableName hname
  have hright : '=' ∉ behind ++ value ++ after := by
    rwa [mem_append_blanks_iff hblank hbehind hafter]
  rw [read_append lexing hleft, readAssignment, if_neg hright, trim_append hbefore hbetween,
    trim_append hbehind hafter, trim_of_isVariableName hname, hname, if_neg hne]
  rfl

/-- A name and a value with one space on both sides of the equals sign, as blanks around them. -/
theorem equals_between_spaces (name value : Text) :
    name ++ " = ".toList ++ value = [] ++ name ++ [' '] ++ '=' :: ([' '] ++ value ++ []) := by
  simp

theorem read_equals_between_spaces (lexing : Lexing) (hname : isVariableName name = true)
    (hequals : '=' ∉ value) (hne : trim value ≠ []) :
    read lexing (name ++ " = ".toList ++ value) = do
      return .assignment name (← readValue lexing (trim value)) := by
  rw [equals_between_spaces]
  exact read_of_isVariableName lexing hname hequals hne blank_nil blank_space blank_space blank_nil

/-! ### The value that is read -/

theorem readValue_of_hasLetter (lexing : Lexing) (h : hasLetter text = true) :
    readValue lexing text = do return joinTokens (← tokenize lexing text) := by
  rw [readValue, if_pos h]

theorem readValue_of_not_hasLetter (lexing : Lexing) (h : hasLetter text = false) :
    readValue lexing text = .ok text := by
  rw [readValue, h]
  rfl

theorem trim_joinTokens {tokens : List Token} (h : ∀ token ∈ tokens, IsLexeme token) :
    trim (joinTokens tokens) = joinTokens tokens := by
  by_cases hne : tokens = []
  · subst hne
    rfl
  · exact (spaced_joinTokens Token.MayTouch hne).trim_eq h

/-- What holds of a value that was read from a text. -/
structure FixedValue (lexing : Lexing) (text value : Text) : Prop where
  trimmed : trim value = value
  ne_nil : value ≠ []
  tokens : tokenize lexing value = tokenize lexing text
  again : ∀ other : Lexing, readValue other value = .ok value

theorem fixedValue_of_readValue (hne : trim text ≠ [])
    (h : readValue lexing (trim text) = .ok value) : FixedValue lexing text value := by
  cases hletter : hasLetter (trim text) with
  | false =>
    rw [readValue_of_not_hasLetter lexing hletter] at h
    cases h
    exact ⟨trim_trim text, hne, tokenize_trim lexing text, fun other =>
      readValue_of_not_hasLetter other hletter⟩
  | true =>
    rw [readValue_of_hasLetter lexing hletter] at h
    obtain ⟨tokens, htokens, hjoined⟩ := bind_eq_ok_iff.1 h
    obtain rfl : joinTokens tokens = value := Except.ok.inj hjoined
    have hlexemes : ∀ token ∈ tokens, IsLexeme token := fun _ => isLexeme_of_mem_tokenize htokens
    have hkept := hasLetter_joinTokens htokens hletter
    refine ⟨trim_joinTokens hlexemes, ?_, ?_, fun other => ?_⟩
    · rintro hnil
      rw [hnil] at hkept
      cases hkept
    · rw [tokenize_joinTokens lexing hlexemes, ← htokens, tokenize_trim]
    · rw [readValue_of_hasLetter other hkept, tokenize_joinTokens other hlexemes]
      rfl

theorem exists_of_read_eq_assignment (h : read lexing text = .ok (.assignment name value)) :
    ∃ left right, text = left ++ '=' :: right ∧ '=' ∉ left ∧ '=' ∉ right ∧ name = trim left ∧
      isVariableName name = true ∧ '=' ∉ value ∧ FixedValue lexing right value := by
  obtain ⟨left, right, rfl, hleft, hright, hname, hletters, hequals⟩ := read_eq_assignment h
  rw [read_append lexing hleft] at h
  obtain ⟨-, -, hne, found, hvalue, hline⟩ := readAssignment_eq_ok h
  obtain ⟨-, rfl⟩ := Line.assignment.inj hline
  exact ⟨left, right, rfl, hleft, hright, hname, hletters, hequals, fixedValue_of_readValue hne hvalue⟩

end Line

end LineCalculator
