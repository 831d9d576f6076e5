import LineCalculator.Console.Program

/-!
# The command line

Reads standard input line by line and prints each reply as it comes, so that the program can be used
at a terminal. What is printed is what `runProgram` says.
-/

namespace LineCalculator

def printText (text : Text) : IO Unit := do
  let output ← IO.getStdout
  output.putStr (String.ofList text)
  output.flush

/-- Reads bytes up to and including a line feed; none at the end of input. -/
partial def readRawLine (input : IO.FS.Stream) (line : Array UInt8) : IO (Array UInt8) := do
  let bytes ← input.read 1
  match bytes.data[0]? with
  | none => return line
  | some byte =>
    if byte = Delivery.lineFeed then return line.push byte
    else readRawLine input (line.push byte)

/-- Replies to lines until one ends the session. -/
partial def converse (switches : Switches) (input : IO.FS.Stream) (store : Store) : IO Unit := do
  let raw ← readRawLine input #[]
  if raw.isEmpty then return
  match Delivery.ofRaw raw.toList with
  | .undecodable => return
  | .line text =>
    let reply := Reply.ofLine switches.lexing store text
    printText reply.printed
    if reply.ends then return
    printText switches.prompt
    converse switches input reply.store

end LineCalculator

open LineCalculator in
def main (arguments : List String) : IO UInt32 := do
  match Invocation.ofArguments (arguments.map String.toList) with
  | .help =>
    printText helpPage
    return 0
  | .version =>
    printText versionText
    return 0
  | .misuse =>
    IO.eprintln "usage: smart_calc [--strict-lexing] [--quiet] [--help] [--version]"
    return 2
  | .session switches =>
    printText (switches.banner ++ switches.prompt)
    converse switches (← IO.getStdin) ∅
    return 0
