import LineCalculator.Proofs.Line.Rendering
import LineCalculator.Proofs.Number.Notation
import LineCalculator.Proofs.Session.Strictness

/-!
# Outcomes on one line

A line that holds no line feed comes to nothing that holds one. What a failure quotes is a piece of
the line that lexing refused or an identifier token, what is bound is a name of letters, and all else
that is shown are fixed words and printed numbers.
-/

namespace LineCalculator

/-! ### Numbers -/

namespace Number

theorem lineFeed_not_mem_print (value : Float) : '\n' ∉ print value := by
  rcases Nat.lt_trichotomy (Binary64.magnitude value) Binary64.infinity with hlt | heq | hgt
  · rcases plain_or_scientific hlt with hplain | ⟨exponent, -, hscientific⟩
    · exact not_mem_of_plain hplain rfl (by decide) (by decide)
    · exact hscientific.not_mem rfl (by decide) (by decide) (by decide)
  · rw [print_of_eq heq]
    cases Binary64.isNegative value <;> decide
  · rw [print_of_gt hgt]
    decide

end Number

/-! ### Failures -/

/-- What fails here fails with a message on one line. -/
def OneLine {α : Type} (result : Except Failure α) : Prop :=
  ∀ failure, result = .error failure → '\n' ∉ failure.message

namespace OneLine

variable {α β : Type} {result : Except Failure α} {next : α → Except Failure β}

theorem ok (value : α) : OneLine (.ok value : Except Failure α) := by
  intro failure h
  cases h

theorem error {failure : Failure} (h : '\n' ∉ failure.message) :
    OneLine (.error failure : Except Failure α) := by
  intro other hother
  cases hother
  exact h

theorem invalidExpression (h : ∀ failure, result = .error failure → failure = .invalidExpression) :
    OneLine result := by
  intro failure hfailure
  rw [h failure hfailure]
  decide

theorem bind (h : OneLine result) (hnext : ∀ value, result = .ok value → OneLine (next value)) :
    OneLine (result >>= next) := by
  intro failure hfailure
  rcases bind_eq_error_iff.1 hfailure with hfirst | ⟨value, hvalue, hsecond⟩
  · exact h failure hfirst
  · exact hnext value hvalue failure hsecond

end OneLine

section

variable {lexing : Lexing} {text : Text}

theorem Failure.lineFeed_not_mem_invalidToken {skipped : Text} (h : '\n' ∉ skipped) :
    '\n' ∉ (invalidToken skipped).message := by
  have hwords : '\n' ∉ "Invalid token: ".toList := by decide
  exact List.not_mem_append hwords h

theorem Failure.lineFeed_not_mem_unknownVariable {name : Text} (h : '\n' ∉ name) :
    '\n' ∉ (unknownVariable name).message := by
  have hwords : '\n' ∉ "Unknown variable '".toList := by decide
  have hquote : '\n' ∉ ['\''] := by decide
  exact List.not_mem_append (List.not_mem_append hwords h) hquote

theorem IsLexeme.lineFeed_not_mem {token : Token} (h : IsLexeme token) : '\n' ∉ token.content := by
  intro hmem
  rcases h.startsToken_or_point hmem with hstarts | hpoint
  · have hblank : isBlank '\n' = true := by decide
    rw [not_startsToken_of_isBlank hblank] at hstarts
    cases hstarts
  · cases hpoint

theorem oneLine_tokenize (lexing : Lexing) (h : '\n' ∉ text) : OneLine (tokenize lexing text) := by
  refine OneLine.bind (.invalidExpression fun _ => foldSigns_eq_error) fun folded hfolded => ?_
  obtain ⟨gaps, tokens, hparted⟩ := exists_parted folded
  cases lexing with
  | permissive =>
    rw [hparted.lex_permissive]
    exact .ok tokens
  | strict =>
    rw [hparted.lex_strict]
    cases hskipped : unlexed? gaps with
    | none => exact .ok tokens
    | some skipped =>
      -- What is quoted stood in the text before its signs were folded.
      have hwithin := (isInfix_of_unlexed? hfolded hparted hskipped).1
      exact .error (Failure.lineFeed_not_mem_invalidToken fun hmem => h (hwithin.subset hmem))

theorem Line.oneLine_readValue (lexing : Lexing) (h : '\n' ∉ text) :
    OneLine (readValue lexing text) := by
  unfold readValue
  split
  · exact (oneLine_tokenize lexing h).bind fun tokens _ => .ok (joinTokens tokens)
  · exact .ok text

theorem Line.oneLine_readAssignment (lexing : Lexing) (left : Text) {right : Text}
    (h : '\n' ∉ right) : OneLine (readAssignment lexing left right) := by
  unfold readAssignment
  split
  · exact .error (by decide)
  · split
    · exact .error (by decide)
    · split
      · exact .error (by decide)
      · have hvalue := oneLine_readValue lexing fun hmem => h (trim_subset right hmem)
        exact hvalue.bind fun value _ => .ok (Line.assignment (trim left) value)

theorem Line.oneLine_read (lexing : Lexing) (h : '\n' ∉ text) : OneLine (read lexing text) := by
  by_cases hmem : '=' ∈ text
  · obtain ⟨left, right, rfl, hleft⟩ := List.eq_append_cons_of_mem hmem
    rw [read_append lexing hleft]
    apply oneLine_readAssignment
    simp_all
  · rw [read_of_not_mem lexing hmem]
    exact (oneLine_tokenize lexing h).bind fun tokens _ => .ok (Line.expression tokens)

theorem Item.oneLine_ofToken (store : Store) {token : Token} (h : '\n' ∉ token.content) :
    OneLine (ofToken store token) := by
  rcases ofToken_cases store token with ⟨item, hitem, -⟩ | hfailed | hfailed | hfailed
  · rw [hitem]
    exact .ok item
  · rw [hfailed]
    exact .error (by decide)
  · rw [hfailed]
    exact .error (by decide)
  · rw [hfailed]
    exact .error (Failure.lineFeed_not_mem_unknownVariable h)

theorem Item.oneLine_ofTokens (store : Store) {tokens : List Token}
    (h : ∀ token ∈ tokens, '\n' ∉ token.content) : OneLine (ofTokens store tokens) := by
  induction tokens with
  | nil => exact .ok []
  | cons token tokens ih =>
    obtain ⟨htoken, htokens⟩ := List.forall_mem_cons.1 h
    rw [ofTokens, List.mapM_cons]
    exact (oneLine_ofToken store htoken).bind fun item _ =>
      (ih htokens).bind fun items _ => .ok (item :: items)

theorem oneLine_evaluateTokens (store : Store) {tokens : List Token}
    (h : tokenize lexing text = .ok tokens) :
    OneLine (Item.ofTokens store tokens >>= evaluateItems) := by
  have hitems := Item.oneLine_ofTokens store fun token hmem =>
    (isLexeme_of_mem_tokenize h hmem).lineFeed_not_mem
  exact hitems.bind fun _ _ => .invalidExpression fun _ => evaluateItems_eq_error

theorem oneLine_evaluateExpression (lexing : Lexing) (store : Store) (h : '\n' ∉ text) :
    OneLine (evaluateExpression lexing store text) :=
  (oneLine_tokenize lexing h).bind fun _ => oneLine_evaluateTokens store

theorem oneLine_assignedNumber (lexing : Lexing) (store : Store) (h : '\n' ∉ text) :
    OneLine (assignedNumber lexing store text) := by
  unfold assignedNumber
  split
  · exact .ok _
  · exact (oneLine_evaluateExpression lexing store h).bind fun evaluation _ => .ok evaluation.number

/-- The value that a line assigns holds no line feed if the line holds none. -/
theorem Line.lineFeed_not_mem_of_readValue {value : Text} (h : '\n' ∉ text)
    (hvalue : readValue lexing text = .ok value) : '\n' ∉ value := by
  unfold readValue at hvalue
  split at hvalue
  · obtain ⟨tokens, htokens, hjoined⟩ := bind_eq_ok_iff.1 hvalue
    cases hjoined
    intro hmem
    obtain ⟨token, htoken, hin⟩ := (mem_joinTokens_iff (by decide)).1 hmem
    exact (isLexeme_of_mem_tokenize htokens htoken).lineFeed_not_mem hin
  · cases hvalue
    exact h

theorem Line.oneLine_outcome {line : Line} (h : '\n' ∉ text) (hread : read lexing text = .ok line)
    (store : Store) : OneLine (line.outcome lexing store) := by
  cases line with
  | expression tokens => exact oneLine_evaluateTokens store (tokenize_of_read_eq_expression hread)
  | assignment name value =>
    obtain ⟨left, right, rfl, hleft, -⟩ := read_eq_assignment hread
    rw [read_append lexing hleft] at hread
    obtain ⟨-, -, -, found, hfound, hline⟩ := readAssignment_eq_ok hread
    obtain ⟨-, rfl⟩ := Line.assignment.inj hline
    have hright : '\n' ∉ trim right := fun hmem => by simp [trim_subset right hmem] at h
    have hvalue := lineFeed_not_mem_of_readValue hright hfound
    exact (oneLine_assignedNumber lexing store hvalue).bind fun number _ =>
      .ok (Evaluation.binding name number)

theorem oneLine_lineOutcome (lexing : Lexing) (store : Store) (h : '\n' ∉ text) :
    OneLine (lineOutcome lexing store text) :=
  (Line.oneLine_read lexing h).bind fun _ hread => Line.oneLine_outcome h hread store

/-! ### Evaluations -/

theorem lineFeed_not_mem_of_isVariableName {name : Text} (h : isVariableName name = true) :
    '\n' ∉ name := by
  intro hmem
  have halpha := (isVariableName_iff.1 h).2 '\n' hmem
  cases halpha

theorem Step.lineFeed_not_mem_display {evaluation : Evaluation} {store : Store}
    (h : (ofLine lexing text store).outcome = .ok evaluation) : '\n' ∉ evaluation.display := by
  cases evaluation with
  | value value =>
    have hwords : '\n' ∉ "Answer: ".toList := by decide
    exact List.not_mem_append hwords (Number.lineFeed_not_mem_print value)
  | binding name value =>
    have hkeeps := keeps_ofLine lexing text store
    rw [Keeps, announcement?, h] at hkeeps
    have hname := lineFeed_not_mem_of_isVariableName hkeeps.2.2
    have hwords : '\n' ∉ " ==> ".toList := by decide
    exact List.not_mem_append (List.not_mem_append hname hwords) (Number.lineFeed_not_mem_print value)

theorem Step.lineFeed_not_mem_message {failure : Failure} {store : Store} (h : '\n' ∉ text)
    (hfailure : (ofLine lexing text store).outcome = .error failure) : '\n' ∉ failure.message := by
  rw [ofLine_eq] at hfailure
  exact oneLine_lineOutcome lexing store h failure hfailure

end

end LineCalculator
