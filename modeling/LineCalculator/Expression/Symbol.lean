import LineCalculator.Text.Blank

/-!
# Operators and parentheses
-/

namespace LineCalculator

inductive Operator where
  | addition
  | subtraction
  | multiplication
  | division
  | exponentiation
deriving DecidableEq

namespace Operator

def apply : Operator → Float → Float → Float
  | addition, left, right => left + right
  | subtraction, left, right => left - right
  | multiplication, left, right => left * right
  | division, left, right => left / right
  | exponentiation, left, right => left.pow right

/-- Of two operators the one with the higher precedence binds closer. -/
def precedence : Operator → Nat
  | addition | subtraction => 1
  | multiplication | division => 2
  | exponentiation => 3

def sign : Operator → Char
  | addition => '+'
  | subtraction => '-'
  | multiplication => '*'
  | division => '/'
  | exponentiation => '^'

def ofText? : Text → Option Operator
  | ['+'] => some addition
  | ['-'] => some subtraction
  | ['*'] => some multiplication
  | ['/'] => some division
  | ['^'] => some exponentiation
  | _ => none

end Operator

inductive Symbol where
  | operator (operator : Operator)
  | leftParen
  | rightParen
deriving DecidableEq

namespace Symbol

/-- Below every operator for a parenthesis, so that none is taken for an operator that binds closer. -/
def precedence : Symbol → Nat
  | operator o => o.precedence
  | leftParen | rightParen => 0

def sign : Symbol → Char
  | operator o => o.sign
  | leftParen => '('
  | rightParen => ')'

def ofText? : Text → Option Symbol
  | ['('] => some leftParen
  | [')'] => some rightParen
  | text => (Operator.ofText? text).map operator

theorem ofText?_sign (symbol : Symbol) : ofText? [symbol.sign] = some symbol := by
  cases symbol with
  | operator o => cases o <;> rfl
  | leftParen => rfl
  | rightParen => rfl

end Symbol

end LineCalculator
