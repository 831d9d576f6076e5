import LineCalculator.Text.Blank

/-!
# Commands

A line that starts with a slash is a command, whatever follows. Its case does not matter; only ASCII
letters need folding for that, since no other letter has one of these words' letters as its lower
case.
-/

namespace LineCalculator

inductive Command where
  | exit
  | help
  | unknown
deriving DecidableEq

namespace Command

def read? : Text → Option Command
  | '/' :: name =>
    let word := name.map Char.toLower
    if word = "exit".toList then some exit
    else if word = "help".toList then some help
    else some unknown
  | _ => none

def helpText : Text :=
  ("Enter an arithmetic expression using + - * / ^ and parentheses, e.g. 2 + 3 * (4 - 1).\n" ++
    "Assign a variable with name = value; names are letters only and can be used in later expressions.\n" ++
    "Commands: /help shows this message, /exit quits.").toList

def message : Command → Text
  | exit => "Bye!".toList
  | help => helpText
  | unknown => "Unknown command".toList

end Command

end LineCalculator
