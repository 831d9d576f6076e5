import LineCalculator.Console.Transcript

/-!
# The program as a function

From arguments and input to the exit code and what is printed.
-/

namespace LineCalculator

def versionText : Text :=
  "smart_calc 0.1.0\n".toList

def helpPage : Text :=
  "Interactive arithmetic calculator with variables\n\nUsage: smart_calc [OPTIONS]\n\nOptions:\n".toList ++
    Flag.all.flatMap Flag.helpLine

structure Exit where
  code : Nat
  printed : Text
deriving DecidableEq

/-- Runs the program. Only a session reads the input. -/
def runProgram (arguments : List Text) (input : List UInt8) : Exit :=
  match Invocation.ofArguments arguments with
  | .session switches => { code := 0, printed := transcript switches (Delivery.ofBytes input) }
  | .help => { code := 0, printed := helpPage }
  | .version => { code := 0, printed := versionText }
  | .misuse => { code := 2, printed := [] }

end LineCalculator
