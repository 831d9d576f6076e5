import LineCalculator.Proofs.Line.Reading

/-!
# Lines written out

Tokens with blanks between all of them are read as these tokens, whatever the tokens are: no two of
them touch, so neither folding nor the longest match can join any. Hence a line that was read can be
written out, its tokens with a space between them or its name and value around an equals sign, and
reading gives the same line again.
-/

namespace LineCalculator

/-- Tokens written out with at least one blank between any two; no tokens are no text. -/
inductive Separated : List Token → Text → Prop
  | nil : Separated [] []
  | tokens {tokens : List Token} {text : Text} (h : Spaced (fun _ _ => False) tokens text) :
      Separated tokens text

def Line.render : Line → Text
  | .assignment name value => name ++ " = ".toList ++ value
  | .expression tokens => joinTokens tokens

theorem Spaced.mono {touch other : Token → Token → Prop} {tokens : List Token} {text : Text}
    (h : Spaced touch tokens text) (hmono : ∀ token next, touch token next → other token next) :
    Spaced other tokens text := by
  induction h with
  | single token => exact .single token
  | cons hblanks htouch _ ih => exact .cons hblanks (fun hnil => hmono _ _ (htouch hnil)) ih

theorem separated_joinTokens (tokens : List Token) : Separated tokens (joinTokens tokens) := by
  by_cases hne : tokens = []
  · subst hne
    exact .nil
  · exact .tokens (spaced_joinTokens _ hne)

theorem Separated.equals_not_mem {tokens : List Token} {text : Text} (h : Separated tokens text)
    (hlexemes : ∀ token ∈ tokens, IsLexeme token) : '=' ∉ text := by
  cases h with
  | nil => simp
  | tokens hspaced => exact hspaced.equals_not_mem hlexemes

theorem Separated.tokenize_eq {tokens : List Token} {text : Text} (h : Separated tokens text)
    (lexing : Lexing) (hlexemes : ∀ token ∈ tokens, IsLexeme token) :
    tokenize lexing text = .ok tokens := by
  cases h with
  | nil => exact tokenize_joinTokens lexing hlexemes
  | tokens hspaced =>
    have htouch : Spaced Token.PartsFrom tokens text := hspaced.mono fun _ _ => False.elim
    exact htouch.tokenize_eq lexing hlexemes

theorem Separated.read_eq {tokens : List Token} {text : Text} (h : Separated tokens text)
    (lexing : Lexing) (hlexemes : ∀ token ∈ tokens, IsLexeme token) :
    Line.read lexing text = .ok (.expression tokens) := by
  rw [Line.read_of_not_mem lexing (h.equals_not_mem hlexemes), h.tokenize_eq lexing hlexemes]
  rfl

namespace Line

variable {lexing : Lexing} {text : Text}

theorem tokenize_of_read_eq_expression {tokens : List Token}
    (h : read lexing text = .ok (.expression tokens)) : tokenize lexing text = .ok tokens := by
  by_cases hmem : '=' ∈ text
  · obtain ⟨left, right, rfl, hleft⟩ := List.eq_append_cons_of_mem hmem
    rw [read_append lexing hleft] at h
    obtain ⟨-, -, -, value, -, hline⟩ := readAssignment_eq_ok h
    cases hline
  · rw [read_of_not_mem lexing hmem] at h
    obtain ⟨found, htokens, hline⟩ := bind_eq_ok_iff.1 h
    cases hline
    exact htokens

theorem read_render_assignment {name value : Text}
    (h : read lexing text = .ok (.assignment name value)) (again : Lexing) :
    read again (name ++ " = ".toList ++ value) = .ok (.assignment name value) := by
  obtain ⟨left, right, -, -, -, -, hname, hequals, hvalue⟩ := exists_of_read_eq_assignment h
  have hne : trim value ≠ [] := by
    rw [hvalue.trimmed]
    exact hvalue.ne_nil
  rw [read_equals_between_spaces again hname hequals hne, hvalue.trimmed, hvalue.again]
  rfl

/-- A line that was read is read again from what it is written out as. -/
theorem read_render_of_read {line : Line} (h : read lexing text = .ok line) (again : Lexing) :
    read again line.render = .ok line := by
  cases line with
  | assignment name value => exact read_render_assignment h again
  | expression tokens =>
    have htokens := tokenize_of_read_eq_expression h
    exact (separated_joinTokens tokens).read_eq again fun _ => isLexeme_of_mem_tokenize htokens

/-- Reading undoes writing out, of any tokens and of any line that was read. -/
theorem read_written (lexing : Lexing) :
    (∀ tokens text, (∀ token ∈ tokens, IsLexeme token) → Separated tokens text →
      read lexing text = .ok (.expression tokens)) ∧
    ∀ text line, read lexing text = .ok line → ∀ again, read again line.render = .ok line :=
  ⟨fun _ _ hlexemes hseparated => hseparated.read_eq lexing hlexemes,
    fun _ _ => read_render_of_read⟩

theorem read_written_signs :
    read .strict "2 3.5 x * * + -".toList = .ok (.expression [⟨['2'], .number⟩,
        ⟨['3', '.', '5'], .number⟩, ⟨['x'], .identifier⟩, ⟨['*'], .operator⟩, ⟨['*'], .operator⟩,
        ⟨['+'], .operator⟩, ⟨['-'], .operator⟩]) ∧
      read .strict "a = b + 1".toList = .ok (.assignment ['a'] "b + 1".toList) := by
  have hdigits : ∀ {d : Char}, d.isDigit = true → IsDigits [d] := fun hd => by simpa [IsDigits]
  have hsign : ∀ sign ∈ ['+', '-', '*', '/', '^'], IsLexeme ⟨[sign], .operator⟩ := fun _ => .operator
  constructor
  · refine (read_written .strict).1 _ _ ?_ (.tokens (.cons blank_space (by simp)
      (.cons blank_space (by simp) (.cons blank_space (by simp) (.cons blank_space (by simp)
        (.cons blank_space (by simp) (.cons blank_space (by simp) (.single _))))))))
    simp only [List.forall_mem_cons, List.not_mem_nil, false_implies, implies_true, and_true]
    exact ⟨.number (.whole (hdigits rfl)), .number (.decimal (hdigits rfl) (hdigits rfl)),
      .identifier (isIdentifier_of_isVariableName rfl), hsign _ (by decide), hsign _ (by decide),
      hsign _ (by decide), hsign _ (by decide)⟩
  · have hread : read .permissive "a = b--1".toList = .ok (.assignment ['a'] "b + 1".toList) := by
      decide +kernel
    exact (read_written .permissive).2 _ _ hread .strict

end Line

end LineCalculator
