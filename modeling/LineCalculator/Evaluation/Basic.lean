import LineCalculator.Expression.Item
import LineCalculator.Number.Printed

/-!
# Evaluating postfix items

Operands are pushed and operators take the two on top. The answer is the last value pushed, whatever
lies below it, and an empty expression answers zero. A binding ends the run at once.
-/

namespace LineCalculator

inductive Evaluation where
  | value (value : Float)
  | binding (name : Text) (value : Float)
deriving DecidableEq

namespace Evaluation

/-- The number in either form. -/
def number : Evaluation → Float
  | value v => v
  | binding _ v => v

def display : Evaluation → Text
  | value v => "Answer: ".toList ++ Number.print v
  | binding name v => name ++ " ==> ".toList ++ Number.print v

end Evaluation

structure Machine where
  /-- The latest value first. -/
  slots : List Float := []
  result : Float := 0.0
deriving DecidableEq

namespace Machine

def push (machine : Machine) (value : Float) : Machine :=
  { slots := value :: machine.slots, result := value }

def apply (machine : Machine) (operator : Operator) : Except Failure Machine :=
  match machine.slots with
  | right :: left :: below => return push { machine with slots := below } (operator.apply left right)
  | _ => throw .invalidExpression

/-- Runs items up to the first binding or the end; gives the machine then and the binding, if there was one. -/
def run (machine : Machine) : List Item → Except Failure (Machine × Option (Text × Float))
  | [] => return (machine, none)
  | .operand (.number value) :: rest => (machine.push value).run rest
  | .operand (.reference _ value) :: rest => (machine.push value).run rest
  | .operand (.binding name value) :: _ => return (machine, some (name, value))
  | .symbol (.operator operator) :: rest => do (← machine.apply operator).run rest
  | .symbol .leftParen :: _ | .symbol .rightParen :: _ => throw .invalidExpression

end Machine

def evaluate (items : List Item) : Except Failure Evaluation := do
  match ← Machine.run {} items with
  | (_, some (name, value)) => return .binding name value
  | (machine, none) => return .value machine.result

end LineCalculator
