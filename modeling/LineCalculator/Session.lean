import LineCalculator.Evaluation.Line

/-!
# Sessions

Lines evaluated one after the other on one store, each under its own lexing.
-/

namespace LineCalculator

/-- What a line came to, and the variables after it. -/
structure Step where
  outcome : Except Failure Evaluation
  store : Store

namespace Step

def ofResult : EStateM.Result Failure Store Evaluation → Step
  | .ok evaluation store => { outcome := .ok evaluation, store }
  | .error failure store => { outcome := .error failure, store }

def ofLine (lexing : Lexing) (text : Text) (store : Store) : Step :=
  ofResult ((evaluateLine lexing text).run store)

end Step

def runSession (store : Store) : List (Lexing × Text) → List Step
  | [] => []
  | (lexing, text) :: rest =>
    let step := Step.ofLine lexing text store
    step :: runSession step.store rest

end LineCalculator
