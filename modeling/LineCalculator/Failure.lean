import LineCalculator.Text.Blank

/-!
# Why a line has no answer
-/

namespace LineCalculator

inductive Failure where
  | invalidAssignment
  | invalidIdentifier
  | invalidExpression
  /-- Strict lexing met text that belongs to no token. -/
  | invalidToken (skipped : Text)
  | unknownVariable (name : Text)
deriving DecidableEq

namespace Failure

def message : Failure → Text
  | invalidAssignment => "Invalid assignment".toList
  | invalidIdentifier => "Invalid identifier".toList
  | invalidExpression => "Invalid expression".toList
  | invalidToken skipped => "Invalid token: ".toList ++ skipped
  | unknownVariable name => "Unknown variable '".toList ++ name ++ ['\'']

end Failure

/-! ### Computations that may fail -/

variable {α β : Type} {result : Except Failure α} {next : α → Except Failure β}

theorem bind_eq_ok_iff {value : β} :
    result >>= next = .ok value ↔ ∃ found, result = .ok found ∧ next found = .ok value := by
  cases result <;> simp [bind, Except.bind]

theorem bind_eq_error_iff {failure : Failure} :
    result >>= next = .error failure ↔
      result = .error failure ∨ ∃ found, result = .ok found ∧ next found = .error failure := by
  cases result <;> simp [bind, Except.bind]

end LineCalculator
