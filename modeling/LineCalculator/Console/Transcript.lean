import LineCalculator.Console.Arguments
import LineCalculator.Console.Command
import LineCalculator.Console.Input
import LineCalculator.Session

/-!
# What the console prints

A banner and a prompt, then for each line its reply and another prompt; the exit command ends the
session without one, and the end of input and a line that cannot be decoded end it too. Quiet
sessions print replies only.
-/

namespace LineCalculator

namespace Switches

def lexing (switches : Switches) : Lexing :=
  if switches.strict then .strict else .permissive

def banner (switches : Switches) : Text :=
  if switches.quiet then [] else "Welcome to Smart Calculator!\n".toList

def prompt (switches : Switches) : Text :=
  if switches.quiet then [] else "\nEnter an expression: ".toList

end Switches

/-- What one line prints, the variables after it, and whether it ends the session. -/
structure Reply where
  printed : Text
  store : Store
  ends : Bool := false

namespace Reply

def ofCommand (store : Store) (command : Command) : Reply :=
  { printed := command.message ++ ['\n'], store, ends := command = .exit }

def ofStep (step : Step) : Reply :=
  match step.outcome with
  | .ok evaluation => { printed := evaluation.display ++ ['\n'], store := step.store }
  | .error failure => { printed := "Error: ".toList ++ failure.message ++ ['\n'], store := step.store }

/-- The reply to a line; a blank line gets none. -/
def ofLine (lexing : Lexing) (store : Store) (line : Text) : Reply :=
  match Command.read? line with
  | some command => ofCommand store command
  | none =>
    if trim line = [] then { printed := [], store }
    else ofStep (Step.ofLine lexing line store)

end Reply

/-- What is printed from the first line on. -/
def printReplies (switches : Switches) (store : Store) : List Delivery → Text
  | [] => []
  | .undecodable :: _ => []
  | .line text :: rest =>
    let reply := Reply.ofLine switches.lexing store text
    if reply.ends then reply.printed
    else reply.printed ++ switches.prompt ++ printReplies switches reply.store rest

def transcript (switches : Switches) (deliveries : List Delivery) : Text :=
  switches.banner ++ switches.prompt ++ printReplies switches ∅ deliveries

end LineCalculator
