import LineCalculator.Text.Blank

/-!
# Lines of input

Input is bytes. A line goes up to and including a line feed, which is dropped together with one
carriage return before it; a last line without line feed counts and keeps what it ends in. Each line
is decoded on its own, so bytes that are no UTF-8 spoil the line they are on and nothing before it.
-/

namespace LineCalculator

/-- A line as it is delivered to the console. -/
inductive Delivery where
  | line (text : Text)
  | undecodable
deriving DecidableEq

namespace Delivery

def lineFeed : UInt8 := 10

def carriageReturn : UInt8 := 13

/-- Cuts bytes after every line feed. -/
def rawLines (bytes : List UInt8) : List (List UInt8) :=
  match _h : bytes.dropWhile (· != lineFeed) with
  | [] => if bytes = [] then [] else [bytes]
  | feed :: rest => (bytes.takeWhile (· != lineFeed) ++ [feed]) :: rawLines rest
termination_by bytes.length
decreasing_by
  have hle := (bytes.dropWhile_sublist (· != lineFeed)).length_le
  rw [‹bytes.dropWhile _ = _›, List.length_cons] at hle
  exact hle

def dropEnd (raw : List UInt8) : List UInt8 :=
  if raw.getLast? = some lineFeed then
    let line := raw.dropLast
    if line.getLast? = some carriageReturn then line.dropLast else line
  else raw

def ofRaw (raw : List UInt8) : Delivery :=
  match String.fromUTF8? ⟨(dropEnd raw).toArray⟩ with
  | some text => line text.toList
  | none => undecodable

def ofBytes (bytes : List UInt8) : List Delivery :=
  (rawLines bytes).map ofRaw

end Delivery

end LineCalculator
