import LineCalculator.Evaluation.Line

/-!
# The stages of a line

What each stage on the way from a line to its answer produced, for a reader who wants to see more
than the answer. A stage is missing when it or one before it failed.
-/

namespace LineCalculator

structure Stages where
  line : Option Line := none
  items : Option (List Item) := none
  reordered : Option (List Item) := none
  outcome : Except Failure Evaluation
  /-- The variables after the last stage that ran. -/
  store : Store

namespace Stages

/-- The stages after the items of a line are known. -/
def ofItems (line : Line) (items : List Item) (store : Store) : Stages :=
  match toPostfix items with
  | .error failure => { line, items, outcome := .error failure, store }
  | .ok reordered => { line, items, reordered, outcome := evaluate reordered, store }

def ofLine (lexing : Lexing) (line : Line) (store : Store) : Stages :=
  match (line.toItems lexing).run store with
  | .error failure after => { line, outcome := .error failure, store := after }
  | .ok items after => ofItems line items after

def ofText (lexing : Lexing) (text : Text) (store : Store) : Stages :=
  match Line.read lexing text with
  | .error failure => { outcome := .error failure, store }
  | .ok line => ofLine lexing line store

end Stages

end LineCalculator
