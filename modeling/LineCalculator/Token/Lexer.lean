import LineCalculator.Failure
import LineCalculator.SignRun
import LineCalculator.Token.Basic

/-!
# Cutting a text into tokens

Tokens are taken from left to right, each as long as it can be. What lies between them is a gap:
blanks may always be dropped, and other characters only by permissive lexing. `next?_length_lt` is
what makes the reading end.
-/

namespace LineCalculator

/-- Whether characters that belong to no token are dropped or reported. -/
inductive Lexing where
  | permissive
  | strict
deriving DecidableEq

/-- Splits after the number at the start of a text: digits, and a point with digits when a digit follows the point. -/
def splitNumber (text : Text) : Text × Text :=
  let whole := text.takeWhile Char.isDigit
  match text.dropWhile Char.isDigit with
  | '.' :: rest =>
    let fraction := rest.takeWhile Char.isDigit
    if fraction.isEmpty then (whole, '.' :: rest)
    else (whole ++ '.' :: fraction, rest.dropWhile Char.isDigit)
  | rest => (whole, rest)

/-- Splits after the token of a given kind at the start of a text. -/
def splitToken (kind : TokenKind) (text : Text) : Text × Text :=
  match kind with
  | .number => splitNumber text
  | .identifier => (text.takeWhile isNamePart, text.dropWhile isNamePart)
  | .operator | .punctuation => (text.take 1, text.drop 1)

/-- The token at the very start of a text and the text after it. -/
def leading? : Text → Option (Token × Text)
  | [] => none
  | c :: rest =>
    (TokenKind.startedBy? c).map fun kind =>
      let (content, after) := splitToken kind (c :: rest)
      (⟨content, kind⟩, after)

/-- The characters before the first token. -/
def gap (text : Text) : Text :=
  text.takeWhile fun c => !startsToken c

/-- The first token of a text and the text after it. -/
def next? (text : Text) : Option (Token × Text) :=
  leading? (text.dropWhile fun c => !startsToken c)

/-- Strict lexing refuses a gap with anything but blanks in it. -/
def Lexing.checkGap (lexing : Lexing) (skipped : Text) : Except Failure Unit :=
  if lexing = .strict ∧ trim skipped ≠ [] then throw (.invalidToken (trim skipped)) else return ()

private theorem length_dropWhile_le (p : Char → Bool) (text : Text) :
    (text.dropWhile p).length ≤ text.length :=
  (text.dropWhile_sublist p).length_le

theorem splitNumber_length_lt {c : Char} (h : c.isDigit = true) (rest : Text) :
    (splitNumber (c :: rest)).2.length < (c :: rest).length := by
  have hle := length_dropWhile_le Char.isDigit rest
  simp only [splitNumber, List.dropWhile_cons, h, if_true, List.length_cons]
  split
  next after heq =>
    have hafter := length_dropWhile_le Char.isDigit after
    rw [heq, List.length_cons] at hle
    split <;> simp <;> omega
  next => simpa using Nat.lt_succ_of_le hle

theorem splitToken_length_lt {c : Char} {kind : TokenKind} (h : TokenKind.startedBy? c = some kind)
    (rest : Text) : (splitToken kind (c :: rest)).2.length < (c :: rest).length := by
  cases kind with
  | number => exact splitNumber_length_lt (startedBy?_eq_number.1 h) rest
  | identifier =>
    have hpart := isNamePart_of_isNameStart (startedBy?_eq_identifier.1 h)
    have hle := length_dropWhile_le isNamePart rest
    simp only [splitToken, List.dropWhile_cons, hpart, if_true, List.length_cons]
    omega
  | operator => simp [splitToken]
  | punctuation => simp [splitToken]

theorem next?_length_lt {text rest : Text} {token : Token} (h : next? text = some (token, rest)) :
    rest.length < text.length := by
  have hle := length_dropWhile_le (fun c => !startsToken c) text
  simp only [next?] at h
  generalize text.dropWhile (fun c => !startsToken c) = left at h hle
  cases left with
  | nil => simp [leading?] at h
  | cons c after =>
    simp only [leading?, Option.map_eq_some_iff, Prod.mk.injEq] at h
    obtain ⟨kind, hkind, -, rfl⟩ := h
    exact Nat.lt_of_lt_of_le (splitToken_length_lt hkind after) hle

/-- All tokens of a text, or the first gap that lexing refuses. -/
def lex (lexing : Lexing) (text : Text) : Except Failure (List Token) := do
  lexing.checkGap (gap text)
  match _h : next? text with
  | none => return []
  | some (token, rest) => return token :: (← lex lexing rest)
termination_by text.length
decreasing_by exact next?_length_lt ‹_›

/-- The tokens of an expression, after its signs are folded. -/
def tokenize (lexing : Lexing) (text : Text) : Except Failure (List Token) := do
  lex lexing (← foldSigns text)

end LineCalculator
