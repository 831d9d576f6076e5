import LineCalculator.Proofs.Session.History

/-!
# Steps from outcomes

What a line comes to is computed from the store without changing it, and then the outcome alone says
what the store becomes: a binding is assigned and anything else leaves it as it was. So two steps
are compared by comparing their outcomes.
-/

namespace LineCalculator

/-- What a line that has been read comes to. -/
def Line.outcome (lexing : Lexing) (store : Store) : Line → Except Failure Evaluation
  | .assignment name value => do return .binding name (← assignedNumber lexing store value)
  | .expression tokens => do evaluateItems (← Item.ofTokens store tokens)

/-- What a text comes to as a line. -/
def lineOutcome (lexing : Lexing) (store : Store) (text : Text) : Except Failure Evaluation := do
  (← Line.read lexing text).outcome lexing store

def Store.settle (store : Store) : Except Failure Evaluation → Store
  | .ok (.binding name value) => store.assign name value
  | .ok (.value _) | .error _ => store

variable {lexing : Lexing} {text : Text}

theorem lineOutcome_of_read {line : Line} (h : Line.read lexing text = .ok line) (store : Store) :
    lineOutcome lexing store text = line.outcome lexing store := by
  rw [lineOutcome, h]
  rfl

theorem lineOutcome_of_not_mem (lexing : Lexing) (store : Store) (h : '=' ∉ text) :
    lineOutcome lexing store text = evaluateExpression lexing store text := by
  rw [lineOutcome, Line.read_of_not_mem lexing h, evaluateExpression]
  cases tokenize lexing text <;> rfl

theorem run_evaluateLine_of_read_eq_expression {tokens : List Token}
    (h : Line.read lexing text = .ok (.expression tokens)) (store : Store) :
    (evaluateLine lexing text).run store =
      resultAt store ((Line.expression tokens).outcome lexing store) := by
  rw [run_evaluateLine_of_read_eq_ok h, run_toItems_expression, Line.outcome]
  cases Item.ofTokens store tokens <;> rfl

theorem exists_value_of_outcome_expression {tokens : List Token} {store : Store}
    {evaluation : Evaluation}
    (h : (Line.expression tokens).outcome lexing store = .ok evaluation) :
    ∃ value, evaluation = .value value := by
  obtain ⟨items, hitems, hevaluate⟩ := bind_eq_ok_iff.1 h
  exact exists_value_of_evaluateItems (Item.isBinding_of_ofTokens hitems) hevaluate

theorem settle_outcome_expression (lexing : Lexing) (tokens : List Token) (store : Store) :
    store.settle ((Line.expression tokens).outcome lexing store) = store := by
  cases houtcome : (Line.expression tokens).outcome lexing store with
  | error failure => rfl
  | ok evaluation =>
    obtain ⟨value, rfl⟩ := exists_value_of_outcome_expression houtcome
    rfl

/-- Evaluating a line is finding its outcome and settling it. -/
theorem Step.ofLine_eq (lexing : Lexing) (text : Text) (store : Store) :
    Step.ofLine lexing text store =
      { outcome := lineOutcome lexing store text
        store := store.settle (lineOutcome lexing store text) } := by
  rw [Step.ofLine]
  cases hread : Line.read lexing text with
  | error failure =>
    rw [run_evaluateLine_of_read_eq_error hread, lineOutcome, hread]
    rfl
  | ok line =>
    rw [lineOutcome_of_read hread]
    cases line with
    | expression tokens =>
      rw [run_evaluateLine_of_read_eq_expression hread, settle_outcome_expression]
      cases (Line.expression tokens).outcome lexing store <;> rfl
    | assignment name value =>
      rw [run_evaluateLine_of_read_eq_assignment hread, Line.outcome]
      cases assignedNumber lexing store value <;> rfl

end LineCalculator
