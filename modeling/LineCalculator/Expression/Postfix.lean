import LineCalculator.Expression.Item

/-!
# From infix to postfix

The shunting yard: operands go straight through, symbols wait on a stack until an operator that
binds no closer, a closing parenthesis or the end calls them out. Operators of one precedence call
each other out, so all of them group to the left, exponentiation too.
-/

namespace LineCalculator

structure Yard where
  /-- What has left the yard, in order. -/
  emitted : Array Item := #[]
  /-- Operators and open parentheses, the latest first. -/
  waiting : List Symbol := []

namespace Yard

/-- Operators and parentheses leave the yard as items. -/
def emit (yard : Yard) (symbols : List Symbol) : Array Item :=
  yard.emitted ++ symbols.map Item.symbol

/-- Whether a waiting symbol leaves before an operator of the given precedence comes in. -/
def yieldsTo (precedence : Nat) (symbol : Symbol) : Bool :=
  precedence ≤ symbol.precedence

def addOperator (yard : Yard) (operator : Operator) : Yard :=
  let yields := yieldsTo operator.precedence
  { emitted := yard.emit (yard.waiting.takeWhile yields)
    waiting := .operator operator :: yard.waiting.dropWhile yields }

/-- The yard after everything up to the last open parenthesis has left, and whether there was one. -/
def close (yard : Yard) : Yard × Bool :=
  let inside := fun symbol => symbol != Symbol.leftParen
  let below := yard.waiting.dropWhile inside
  ({ emitted := yard.emit (yard.waiting.takeWhile inside), waiting := below.drop 1 }, !below.isEmpty)

/-- Takes one item in. A closing parenthesis without an open one fails, and all that waited has left by then. -/
def add : Item → EStateM Failure Yard Unit
  | .operand operand =>
    modify fun yard => { yard with emitted := yard.emitted.push (.operand operand) }
  | .symbol (.operator operator) => modify fun yard => yard.addOperator operator
  | .symbol .leftParen =>
    modify fun yard => { yard with waiting := .leftParen :: yard.waiting }
  | .symbol .rightParen => do
    let (closed, matched) := (← get).close
    set closed
    if !matched then throw .invalidExpression

theorem run_add_operand (yard : Yard) (operand : Operand) :
    (add (.operand operand)).run yard =
      .ok () { yard with emitted := yard.emitted.push (.operand operand) } :=
  rfl

theorem run_add_operator (yard : Yard) (operator : Operator) :
    (add (.symbol (.operator operator))).run yard = .ok () (yard.addOperator operator) :=
  rfl

theorem run_add_leftParen (yard : Yard) :
    (add (.symbol .leftParen)).run yard =
      .ok () { yard with waiting := .leftParen :: yard.waiting } :=
  rfl

theorem run_add_rightParen (yard : Yard) :
    (add (.symbol .rightParen)).run yard =
      if yard.close.2 then .ok () yard.close.1 else .error .invalidExpression yard.close.1 := by
  cases h : yard.close with
  | mk closed matched =>
    cases matched <;> simp [add, EStateM.run_bind, EStateM.run_get, h]

/-- What the yard has emitted once all that waits has left; an open parenthesis may not be among it. -/
def finish (yard : Yard) : Except Failure (List Item) :=
  if .leftParen ∈ yard.waiting then throw .invalidExpression
  else return (yard.emit yard.waiting).toList

/-- Takes items in one after the other and goes on after a failure: what each one reports, and the yard at the end. -/
def addEach (yard : Yard) : List Item → List (Option Failure) × Yard
  | [] => ([], yard)
  | item :: rest =>
    match (add item).run yard with
    | .ok _ next => let (reports, last) := next.addEach rest; (none :: reports, last)
    | .error failure next => let (reports, last) := next.addEach rest; (some failure :: reports, last)

end Yard

def toPostfix (items : List Item) : Except Failure (List Item) :=
  match (items.forM Yard.add).run {} with
  | .ok _ yard => yard.finish
  | .error failure _ => throw failure

end LineCalculator
