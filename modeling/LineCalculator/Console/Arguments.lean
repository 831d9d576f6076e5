import LineCalculator.Text.Blank

/-!
# Command line arguments

Two switches, each given at most once, and requests for help and for the version. Arguments take
effect from left to right: the first one that cannot be used makes the call a misuse, and a request
before it is answered at once. Help lists the flags from the same table by which they are read.
-/

namespace LineCalculator

structure Switches where
  strict : Bool := false
  quiet : Bool := false
deriving DecidableEq

inductive Flag where
  | strict
  | quiet
  | help
  | version
deriving DecidableEq

namespace Flag

/-- In the order of the help page. -/
def all : List Flag :=
  [strict, quiet, help, version]

def letter : Flag → Char
  | strict => 's'
  | quiet => 'q'
  | help => 'h'
  | version => 'V'

def word : Flag → Text
  | strict => "strict-lexing".toList
  | quiet => "quiet".toList
  | help => "help".toList
  | version => "version".toList

def about : Flag → Text
  | strict => "Report characters the lexer does not recognise instead of skipping them".toList
  | quiet => "Skip the welcome banner and prompts, for piped input".toList
  | help => "Print help".toList
  | version => "Print version".toList

def ofLetter? (letter : Char) : Option Flag :=
  all.find? fun flag => flag.letter = letter

def ofWord? (word : Text) : Option Flag :=
  all.find? fun flag => flag.word = word

def names (flag : Flag) : Text :=
  ['-', flag.letter, ',', ' ', '-', '-'] ++ flag.word

/-- The help page's line on a flag. What the flags do starts in one column. -/
def helpLine (flag : Flag) : Text :=
  let width := (all.map fun other => other.names.length).foldr max 0
  "  ".toList ++ flag.names.rightpad width ' ' ++ "  ".toList ++ flag.about ++ ['\n']

/-- The flags that one argument stands for, `none` for what is no flag. Letters may be joined behind one dash. -/
def ofArgument : Text → List (Option Flag)
  | '-' :: '-' :: word => [ofWord? word]
  | '-' :: letter :: letters => (letter :: letters).map ofLetter?
  | _ => [none]

/-- The flags of all arguments. Behind two dashes alone every argument is positional, and there are no positional ones. -/
def ofArguments : List Text → List (Option Flag)
  | [] => []
  | argument :: rest =>
    if argument = ['-', '-'] then rest.map fun _ => none
    else ofArgument argument ++ ofArguments rest

end Flag

/-- What a call of the program asks for. -/
inductive Invocation where
  | session (switches : Switches)
  | help
  | version
  | misuse
deriving DecidableEq

namespace Invocation

def ofFlags (switches : Switches) : List (Option Flag) → Invocation
  | [] => session switches
  | some .help :: _ => help
  | some .version :: _ => version
  | some .strict :: rest => if switches.strict then misuse else ofFlags { switches with strict := true } rest
  | some .quiet :: rest => if switches.quiet then misuse else ofFlags { switches with quiet := true } rest
  | none :: _ => misuse

def ofArguments (arguments : List Text) : Invocation :=
  ofFlags {} (Flag.ofArguments arguments)

end Invocation

end LineCalculator
