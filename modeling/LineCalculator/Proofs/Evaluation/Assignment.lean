import LineCalculator.Proofs.Expression.Phrase
import LineCalculator.Proofs.Line.Reading

/-!
# Assigning an expression

The text that is assigned is trimmed, cut into tokens and joined again before it is evaluated as a
line of its own. None of this makes a difference to a text with letters. Trimming is part of
folding, the joined tokens are cut into the same tokens, and the letters are still there, so the
text is not taken for a literal on the way.
-/

namespace LineCalculator

variable {lexing : Lexing} {store : Store} {name value text left right : Text}

theorem read_assignment {before between behind after : Text} (lexing : Lexing)
    (hname : isVariableName name = true)
    (hequals : '=' ∉ value) (hletter : hasLetter value = true)
    (hbefore : ∀ c ∈ before, isBlank c = true)
    (hbetween : ∀ c ∈ between, isBlank c = true) (hbehind : ∀ c ∈ behind, isBlank c = true)
    (hafter : ∀ c ∈ after, isBlank c = true) :
    Line.read lexing (before ++ name ++ between ++ '=' :: (behind ++ value ++ after)) = do
      return .assignment name (joinTokens (← tokenize lexing value)) := by
  have hkept : hasLetter (trim value) = true := by
    obtain ⟨c, hc, halpha⟩ := List.any_eq_true.1 hletter
    exact List.any_eq_true.2 ⟨c, (mem_trim_iff (not_isBlank_of_isAlpha halpha)).2 hc, halpha⟩
  have hne : trim value ≠ [] := by
    intro hnil
    rw [hnil] at hkept
    cases hkept
  rw [Line.read_of_isVariableName lexing hname hequals hne hbefore hbetween hbehind hafter,
    Line.readValue_of_hasLetter lexing hkept, tokenize_trim]
  cases tokenize lexing value <;> rfl

theorem evaluateExpression_joinTokens {tokens : List Token}
    (h : tokenize lexing text = .ok tokens) :
    evaluateExpression lexing store (joinTokens tokens) = evaluateExpression lexing store text := by
  rw [evaluateExpression, evaluateExpression, h,
    tokenize_joinTokens lexing fun token hmem => isLexeme_of_mem_tokenize h hmem]

/-- Assigning a text with letters agrees with evaluating it. -/
theorem run_evaluateLine_assignment {before between behind after : Text} (lexing : Lexing)
    (store : Store)
    (hname : isVariableName name = true) (hequals : '=' ∉ value) (hletter : hasLetter value = true)
    (hbefore : ∀ c ∈ before, isBlank c = true) (hbetween : ∀ c ∈ between, isBlank c = true)
    (hbehind : ∀ c ∈ behind, isBlank c = true) (hafter : ∀ c ∈ after, isBlank c = true) :
    (∃ number, (evaluateLine lexing value).run store = .ok (.value number) store ∧
      (evaluateLine lexing (before ++ name ++ between ++ '=' :: (behind ++ value ++ after))).run store =
        .ok (.binding name number) (store.assign name number)) ∨
    (∃ failure, (evaluateLine lexing value).run store = .error failure store ∧
      (evaluateLine lexing (before ++ name ++ between ++ '=' :: (behind ++ value ++ after))).run store =
        .error failure store) := by
  have hread := read_assignment lexing hname hequals hletter hbefore hbetween hbehind hafter
  rw [run_evaluateLine_of_not_mem lexing store hequals]
  cases htokens : tokenize lexing value with
  | error failure =>
    rw [htokens] at hread
    refine .inr ⟨failure, ?_, run_evaluateLine_of_read_eq_error hread store⟩
    rw [evaluateExpression, htokens]
    rfl
  | ok tokens =>
    rw [htokens] at hread
    rw [run_evaluateLine_of_read_eq_assignment hread store, assignedNumber,
      if_pos (hasLetter_joinTokens htokens hletter), evaluateExpression_joinTokens htokens]
    cases hevaluate : evaluateExpression lexing store value with
    | error failure => exact .inr ⟨failure, rfl, rfl⟩
    | ok evaluation =>
      obtain ⟨number, rfl⟩ := exists_value_of_evaluateExpression hevaluate
      exact .inl ⟨number, rfl, rfl⟩

theorem run_evaluateLine_doubled :
    (evaluateLine .permissive "n = n + n".toList).run (Store.ofList [(['n'], 2)]) =
      .ok (.binding ['n'] (Operator.addition.apply 2 2))
        ((Store.ofList [(['n'], 2)]).assign ['n'] (Operator.addition.apply 2 2)) := by
  have hwritten : (.apply .addition (.lift (.lift (.lift (.name ['n'] rfl))))
      (.lift (.lift (.name ['n'] rfl))) : Phrase 1).WrittenAs "n + n".toList :=
    .cons blank_space (by simp) (.cons blank_space (by simp) (.single _))
  have hn : (Store.ofList [(['n'], 2)]).get? ['n'] = some 2 := by
    simp [Store.ofList, Store.get?_assign]
  have hbound : ∀ name ∈ [['n'], ['n']], ((Store.ofList [(['n'], 2)]).get? name).isSome = true := by
    simp [hn]
  obtain ⟨value, hvalue, hevaluate⟩ :=
    hwritten.evaluateExpression_eq .permissive blank_nil blank_nil hbound
  simp only [Phrase.value?, hn] at hvalue
  cases hvalue
  have hequals : '=' ∉ "n + n".toList := by decide
  have hright : (evaluateLine .permissive "n + n".toList).run (Store.ofList [(['n'], 2)]) =
      .ok (.value (Operator.addition.apply 2 2)) (Store.ofList [(['n'], 2)]) := by
    rw [run_evaluateLine_of_not_mem .permissive _ hequals]
    exact congrArg (resultAt _) hevaluate
  have hname : isVariableName ['n'] = true := rfl
  have hletter : hasLetter "n + n".toList = true := rfl
  rcases run_evaluateLine_assignment .permissive (Store.ofList [(['n'], 2)]) hname hequals hletter
      blank_nil blank_space blank_space blank_nil with
    ⟨number, hnumber, hline⟩ | ⟨failure, hfailure, -⟩
  · rw [hright] at hnumber
    cases hnumber
    exact hline
  · rw [hright] at hfailure
    cases hfailure

end LineCalculator
