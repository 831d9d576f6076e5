import LineCalculator.Proofs.Expression.Conservation

/-!
# What a line does to a store

A line without an equals sign is an expression. It reads the variables and changes none, and its
answer is a value, so all that has to be known of it is what it evaluates to in a store. A line that
assigns has such a text on its right. Once that text has a value nothing can fail any more, and
before that nothing is committed.
-/

namespace LineCalculator

/-- What a text without an equals sign evaluates to. -/
def evaluateExpression (lexing : Lexing) (store : Store) (text : Text) : Except Failure Evaluation := do
  evaluateItems (← Item.ofTokens store (← tokenize lexing text))

variable {lexing : Lexing} {store : Store} {text : Text}

theorem run_evaluateLine_of_not_mem (lexing : Lexing) (store : Store) (h : '=' ∉ text) :
    (evaluateLine lexing text).run store = resultAt store (evaluateExpression lexing store text) := by
  have hread := Line.read_of_not_mem lexing h
  rw [evaluateExpression]
  cases htokens : tokenize lexing text with
  | error failure =>
    rw [htokens] at hread
    exact run_evaluateLine_of_read_eq_error hread store
  | ok tokens =>
    rw [htokens] at hread
    rw [run_evaluateLine_of_read_eq_ok hread, run_toItems_expression]
    simp only [bind, Except.bind]
    cases hitems : Item.ofTokens store tokens with
    | error failure => rfl
    | ok items => rfl

/-! ### Expressions have values -/

theorem Item.ofToken_cases (store : Store) (token : Token) :
    (∃ item, ofToken store token = .ok item ∧ item.isBinding = false) ∨
      ofToken store token = .error .invalidExpression ∨
      ofToken store token = .error .invalidIdentifier ∨
      ofToken store token = .error (.unknownVariable token.content) := by
  unfold ofToken
  split
  · unfold ofNumber
    split
    · exact .inl ⟨_, rfl, rfl⟩
    · exact .inr (.inl rfl)
  · unfold ofIdentifier Operand.ofName
    split
    · exact .inr (.inl rfl)
    · split
      · exact .inr (.inr (.inl rfl))
      · split
        · exact .inl ⟨_, rfl, rfl⟩
        · exact .inr (.inr (.inr rfl))
  all_goals
    unfold ofSign
    split
    · exact .inl ⟨_, rfl, rfl⟩
    · exact .inr (.inl rfl)

theorem Item.isBinding_of_ofToken {token : Token} {item : Item}
    (h : ofToken store token = .ok item) :
    item.isBinding = false := by
  rcases ofToken_cases store token with ⟨found, hfound, hbinding⟩ | hfailed | hfailed | hfailed
  · rw [h] at hfound
    cases hfound
    exact hbinding
  all_goals
    rw [h] at hfailed
    cases hfailed

theorem Item.isBinding_of_ofTokens {tokens : List Token} {items : List Item}
    (h : ofTokens store tokens = .ok items) : ∀ item ∈ items, item.isBinding = false := by
  induction tokens generalizing items with
  | nil =>
    cases h
    simp
  | cons token tokens ih =>
    rw [ofTokens, List.mapM_cons] at h
    obtain ⟨item, htoken, h⟩ := bind_eq_ok_iff.1 h
    obtain ⟨rest, htokens, h⟩ := bind_eq_ok_iff.1 h
    cases h
    intro other hmem
    rcases List.mem_cons.1 hmem with rfl | hmem
    · exact isBinding_of_ofToken htoken
    · exact ih htokens other hmem

theorem exists_value_of_evaluateExpression {evaluation : Evaluation}
    (h : evaluateExpression lexing store text = .ok evaluation) :
    ∃ value, evaluation = .value value := by
  obtain ⟨tokens, -, h⟩ := bind_eq_ok_iff.1 h
  obtain ⟨items, hitems, hevaluate⟩ := bind_eq_ok_iff.1 h
  exact exists_value_of_evaluateItems (Item.isBinding_of_ofTokens hitems) hevaluate

/-! ### Assignments -/

/-- The value that a text without an equals sign gives to a variable. -/
def assignedNumber (lexing : Lexing) (store : Store) (text : Text) : Except Failure Float :=
  match if hasLetter text then none else Number.read? text with
  | some value => return value
  | none => return (← evaluateExpression lexing store text).number

theorem run_assignedValue (lexing : Lexing) (store : Store) (h : '=' ∉ text) :
    (assignedValue text (evaluateLine lexing text)).run store =
      resultAt store (assignedNumber lexing store text) := by
  rw [assignedValue, assignedNumber]
  generalize (if hasLetter text then none else Number.read? text) = literal
  cases literal with
  | some value => rfl
  | none =>
    simp only [EStateM.run_bind, run_evaluateLine_of_not_mem lexing store h]
    cases evaluateExpression lexing store text <;> rfl

theorem run_evaluateLine_of_read_eq_assignment {name value : Text}
    (h : Line.read lexing text = .ok (.assignment name value)) (store : Store) :
    (evaluateLine lexing text).run store =
      match assignedNumber lexing store value with
      | .ok number => .ok (.binding name number) (store.assign name number)
      | .error failure => .error failure store := by
  obtain ⟨left, right, -, -, -, -, -, hequals⟩ := Line.read_eq_assignment h
  rw [run_evaluateLine_of_read_eq_ok h, run_toItems_assignment, run_assignedValue lexing store hequals]
  cases assignedNumber lexing store value <;> rfl

end LineCalculator
