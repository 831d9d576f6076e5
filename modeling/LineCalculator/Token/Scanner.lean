import LineCalculator.Token.Lexer

/-!
# Reading tokens one at a time

A scanner stands on one token of a text, or past its end, and moves on when asked. A gap that lexing
refuses leaves it where it is, so the same failure comes again.
-/

namespace LineCalculator

structure Scanner where
  lexing : Lexing
  /-- The text after the current token. -/
  rest : Text
  current : Option Token := none
deriving DecidableEq

namespace Scanner

/-- Moves to the next token; past the last one there is nothing left to read. -/
def advance : EStateM Failure Scanner Unit := do
  let scanner ← get
  liftExcept (scanner.lexing.checkGap (gap scanner.rest))
  match next? scanner.rest with
  | some (token, rest) => set { scanner with rest, current := some token }
  | none => set { scanner with rest := [], current := none }

theorem run_advance (scanner : Scanner) :
    advance.run scanner =
      match scanner.lexing.checkGap (gap scanner.rest) with
      | .error failure => .error failure scanner
      | .ok () =>
        match next? scanner.rest with
        | some (token, rest) => .ok () { scanner with rest, current := some token }
        | none => .ok () { scanner with rest := [], current := none } := by
  simp only [advance, EStateM.run_bind, EStateM.run_get]
  cases scanner.lexing.checkGap (gap scanner.rest) with
  | error failure => rfl
  | ok done => cases next? scanner.rest <;> rfl

def start (lexing : Lexing) (text : Text) : Except Failure Scanner :=
  match advance.run { lexing, rest := text } with
  | .ok _ scanner => .ok scanner
  | .error failure _ => .error failure

/-- What each of a number of further moves reports, and the token on which it leaves the scanner. -/
def moves (scanner : Scanner) : Nat → List (Option Failure × Option Token)
  | 0 => []
  | count + 1 =>
    match advance.run scanner with
    | .ok _ next => (none, next.current) :: next.moves count
    | .error failure same => (some failure, same.current) :: same.moves count

end Scanner

end LineCalculator
