import LineCalculator.Evaluation.Basic
import LineCalculator.Expression.Postfix
import LineCalculator.Line

/-!
# Evaluating a line

A line is read, turned into items, reordered and evaluated. An assignment is committed while its
items are made, and its right side is evaluated as a line of its own for that. What a line assigns
holds no equals sign, so the nesting ends there; a line that was put together by hand may carry one
in its value, and then it goes on as long as there are such signs. All this is written down for any
effect that keeps variables and can fail, and whoever runs it may note the texts on their way.
-/

namespace LineCalculator

/-- Computations that read and change the variables. A failure leaves what was committed before it. -/
abbrev Calculation := EStateM Failure Store

/-- A result beside variables that did not change for it. -/
def resultAt {α : Type} (store : Store) : Except Failure α → EStateM.Result Failure Store α
  | .ok value => .ok value store
  | .error failure => .error failure store

theorem run_liftExcept {α : Type} (result : Except Failure α) (store : Store) :
    (liftExcept result : Calculation α).run store = resultAt store result := by
  cases result <;> rfl

def evaluateItems (items : List Item) : Except Failure Evaluation := do
  evaluate (← toPostfix items)

/-- Bounds the evaluations below the items of a line; `evaluateLine` comes between two of them. -/
def Line.nesting : Line → Nat
  | .expression _ => 0
  | .assignment _ text => 2 * text.count '=' + 2

theorem Line.nesting_lt_of_read {lexing : Lexing} {text : Text} {line : Line}
    (h : Line.read lexing text = .ok line) : line.nesting < 2 * text.count '=' + 1 := by
  cases line with
  | expression tokens => simp [nesting]
  | assignment name value =>
    obtain ⟨left, right, rfl, -, -, -, -, hvalue⟩ := read_eq_assignment h
    rw [nesting, List.count_eq_zero.2 hvalue, List.count_append, List.count_cons_self]
    omega

section

variable {m : Type → Type} [Monad m]

/-- The value of an assigned text: a literal if it has no letters and reads as one, otherwise what it evaluates to. -/
def assignedValue (text : Text) (evaluation : m Evaluation) : m Float :=
  match if hasLetter text then none else Number.read? text with
  | some value => return value
  | none => return (← evaluation).number

variable [MonadStateOf Store m] [MonadExceptOf Failure m]

mutual

/-- Evaluates a line of input. Every text is noted before it is read, that of a right side too. -/
def evaluateLineWith (note : Text → m Unit) (lexing : Lexing) (text : Text) : m Evaluation := do
  note text
  match _h : Line.read lexing text with
  | .error failure => throw failure
  | .ok line => do
    let items ← line.toItemsWith note lexing
    liftExcept (evaluateItems items)
termination_by 2 * text.count '=' + 1
decreasing_by exact Line.nesting_lt_of_read ‹_›

/-- The items of a line, its assignment committed. -/
def Line.toItemsWith (note : Text → m Unit) (lexing : Lexing) : Line → m (List Item)
  | .expression tokens => do liftExcept (Item.ofTokens (← get) tokens)
  | .assignment name text => do
    let value ← assignedValue text (evaluateLineWith note lexing text)
    modify fun store => store.assign name value
    return [.operand (.binding name value)]
termination_by line => line.nesting
decreasing_by simp [Line.nesting]

end

variable {note : Text → m Unit} {lexing : Lexing} {text : Text}

theorem evaluateLineWith_of_read_eq_error {failure : Failure}
    (h : Line.read lexing text = .error failure) :
    evaluateLineWith note lexing text = (do note text; throw failure) := by
  rw [evaluateLineWith]
  split
  next found hfound =>
    obtain rfl : found = failure := Except.error.inj (hfound.symm.trans h)
    rfl
  next => simp_all

theorem evaluateLineWith_of_read_eq_ok {line : Line} (h : Line.read lexing text = .ok line) :
    evaluateLineWith note lexing text = (do
      note text
      liftExcept (evaluateItems (← line.toItemsWith note lexing))) := by
  rw [evaluateLineWith]
  split
  next => simp_all
  next found hfound =>
    obtain rfl : found = line := Except.ok.inj (hfound.symm.trans h)
    rfl

end

def evaluateLine (lexing : Lexing) (text : Text) : Calculation Evaluation :=
  evaluateLineWith (fun _ => return ()) lexing text

def Line.toItems (lexing : Lexing) (line : Line) : Calculation (List Item) :=
  line.toItemsWith (fun _ => return ()) lexing

theorem run_toItems_expression (lexing : Lexing) (tokens : List Token) (store : Store) :
    ((Line.expression tokens).toItems lexing).run store =
      resultAt store (Item.ofTokens store tokens) := by
  simp only [Line.toItems, Line.toItemsWith, EStateM.run_bind, EStateM.run_get, run_liftExcept]

theorem run_toItems_assignment (lexing : Lexing) (name text : Text) (store : Store) :
    ((Line.assignment name text).toItems lexing).run store =
      match (assignedValue text (evaluateLine lexing text)).run store with
      | .ok value after => .ok [.operand (.binding name value)] (after.assign name value)
      | .error failure after => .error failure after := by
  rw [Line.toItems, Line.toItemsWith, ← evaluateLine, EStateM.run_bind]
  cases (assignedValue text (evaluateLine lexing text)).run store <;> rfl

theorem run_evaluateLine_of_read_eq_error {lexing : Lexing} {text : Text} {failure : Failure}
    (h : Line.read lexing text = .error failure) (store : Store) :
    (evaluateLine lexing text).run store = .error failure store := by
  rw [evaluateLine, evaluateLineWith_of_read_eq_error h]
  rfl

theorem run_evaluateLine_of_read_eq_ok {lexing : Lexing} {text : Text} {line : Line}
    (h : Line.read lexing text = .ok line) (store : Store) :
    (evaluateLine lexing text).run store =
      match (line.toItems lexing).run store with
      | .ok items after => resultAt after (evaluateItems items)
      | .error failure after => .error failure after := by
  rw [evaluateLine, evaluateLineWith_of_read_eq_ok h, Line.toItems]
  show ((do
    let items ← line.toItemsWith (fun _ => return ()) lexing
    liftExcept (evaluateItems items)) : Calculation Evaluation).run store = _
  rw [EStateM.run_bind]
  cases (line.toItemsWith (fun _ => return ()) lexing : Calculation (List Item)).run store with
  | ok items after => exact run_liftExcept _ after
  | error failure after => rfl

end LineCalculator
