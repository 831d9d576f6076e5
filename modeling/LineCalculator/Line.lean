import LineCalculator.Token.Cut

/-!
# Lines

A line with an equals sign assigns, any other is an expression. What is assigned is kept as text: a
value without letters may be a literal that the lexer cannot read, and one with letters is cut into
tokens here, so that its lexing failures come before anything else is known about it.
-/

namespace LineCalculator

inductive Line where
  | assignment (name value : Text)
  | expression (tokens : List Token)
deriving DecidableEq

namespace Line

/-- The text that is assigned, from the trimmed right side of a line. -/
def readValue (lexing : Lexing) (value : Text) : Except Failure Text :=
  if hasLetter value then return joinTokens (← tokenize lexing value) else return value

/-- Reads the two sides of the first equals sign. -/
def readAssignment (lexing : Lexing) (left right : Text) : Except Failure Line :=
  if '=' ∈ right then throw .invalidAssignment
  else if !isVariableName (trim left) then throw .invalidIdentifier
  else if trim right = [] then throw .invalidAssignment
  else return .assignment (trim left) (← readValue lexing (trim right))

def read (lexing : Lexing) (text : Text) : Except Failure Line :=
  match text.dropWhile (· != '=') with
  | _ :: right => readAssignment lexing (text.takeWhile (· != '=')) right
  | [] => return .expression (← tokenize lexing text)

theorem read_of_not_mem (lexing : Lexing) {text : Text} (h : '=' ∉ text) :
    read lexing text = do return .expression (← tokenize lexing text) := by
  have hnone : text.dropWhile (· != '=') = [] := dropWhile_eq_nil_of_forall (bne_of_not_mem h)
  rw [read, hnone]

theorem read_append (lexing : Lexing) {left : Text} (h : '=' ∉ left) (right : Text) :
    read lexing (left ++ '=' :: right) = readAssignment lexing left right := by
  have hleft := bne_of_not_mem h
  have hright : ∀ c ∈ ('=' :: right).head?, (c != '=') = false := by simp
  rw [read, dropWhile_append_of_head? hleft hright, takeWhile_append_of_head? hleft hright]

theorem readAssignment_eq_ok {lexing : Lexing} {left right : Text} {line : Line}
    (h : readAssignment lexing left right = .ok line) :
    '=' ∉ right ∧ isVariableName (trim left) = true ∧ trim right ≠ [] ∧
      ∃ value, readValue lexing (trim right) = .ok value ∧ line = .assignment (trim left) value := by
  unfold readAssignment at h
  split at h
  · cases h
  · split at h
    · cases h
    · split at h
      · cases h
      · obtain ⟨value, hvalue, hline⟩ := bind_eq_ok_iff.1 h
        cases hline
        simp_all

theorem equals_not_mem_of_readValue {lexing : Lexing} {text value : Text} (h : '=' ∉ text)
    (hvalue : readValue lexing text = .ok value) : '=' ∉ value := by
  unfold readValue at hvalue
  split at hvalue
  · obtain ⟨tokens, htokens, hjoined⟩ := bind_eq_ok_iff.1 hvalue
    cases hjoined
    intro hmem
    obtain ⟨token, htoken, hin⟩ := (mem_joinTokens_iff (by decide)).1 hmem
    exact (isLexeme_of_mem_tokenize htokens htoken).equals_not_mem hin
  · cases hvalue
    exact h

theorem read_eq_assignment {lexing : Lexing} {text name value : Text}
    (h : read lexing text = .ok (.assignment name value)) :
    ∃ left right, text = left ++ '=' :: right ∧ '=' ∉ left ∧ '=' ∉ right ∧ name = trim left ∧
      isVariableName name = true ∧ '=' ∉ value := by
  by_cases hmem : '=' ∈ text
  · obtain ⟨left, right, rfl, hleft⟩ := List.eq_append_cons_of_mem hmem
    rw [read_append lexing hleft] at h
    obtain ⟨hright, hname, -, found, hvalue, hline⟩ := readAssignment_eq_ok h
    obtain ⟨rfl, rfl⟩ := Line.assignment.inj hline
    exact ⟨left, right, rfl, hleft, hright, rfl, hname,
      equals_not_mem_of_readValue (fun htrim => hright (trim_subset right htrim)) hvalue⟩
  · rw [read_of_not_mem lexing hmem] at h
    obtain ⟨tokens, -, hline⟩ := bind_eq_ok_iff.1 h
    cases hline

end Line

end LineCalculator
