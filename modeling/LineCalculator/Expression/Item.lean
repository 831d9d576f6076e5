import LineCalculator.Expression.Symbol
import LineCalculator.Failure
import LineCalculator.Number.Literal
import LineCalculator.Store
import LineCalculator.Token.Basic

/-!
# Items of an expression

An expression is a list of operands and symbols, in infix or in postfix order. Variables are looked
up while items are made from tokens, so an item carries its value and nothing after this stage needs
the store.
-/

namespace LineCalculator

inductive Operand where
  | number (value : Float)
  /-- A variable that is read, with the value it had then. -/
  | reference (name : Text) (value : Float)
  /-- The outcome of an assignment. -/
  | binding (name : Text) (value : Float)
deriving DecidableEq

inductive Item where
  | operand (operand : Operand)
  | symbol (symbol : Symbol)
deriving DecidableEq

def Operand.ofName (store : Store) (name : Text) : Except Failure Operand :=
  if !isVariableName name then throw .invalidIdentifier
  else
    match store.get? name with
    | some value => return .reference name value
    | none => throw (.unknownVariable name)

namespace Item

def ofNumber (content : Text) : Except Failure Item :=
  match Number.read? content with
  | some value => return .operand (.number value)
  | none => throw .invalidExpression

/-- A letter followed by digits is a broken number more than a name, so it fails as an expression. -/
def ofIdentifier (store : Store) (content : Text) : Except Failure Item :=
  if hasDigit content || !hasLetter content then throw .invalidExpression
  else return .operand (← Operand.ofName store content)

def ofSign (content : Text) : Except Failure Item :=
  match Symbol.ofText? content with
  | some sign => return .symbol sign
  | none => throw .invalidExpression

def ofToken (store : Store) (token : Token) : Except Failure Item :=
  match token.kind with
  | .number => ofNumber token.content
  | .identifier => ofIdentifier store token.content
  | .operator | .punctuation => ofSign token.content

/-- The items of an expression, or the failure of its first token that has none. -/
def ofTokens (store : Store) (tokens : List Token) : Except Failure (List Item) :=
  tokens.mapM (ofToken store)

variable {store : Store}

theorem ofToken_number (store : Store) {content : Text} {value : Float}
    (h : Number.read? content = some value) :
    ofToken store ⟨content, .number⟩ = .ok (.operand (.number value)) := by
  simp only [ofToken, ofNumber, h]
  rfl

theorem ofIdentifier_of_isVariableName {content : Text} (h : isVariableName content = true) :
    ofIdentifier store content = do return .operand (← Operand.ofName store content) := by
  obtain ⟨hne, hletters⟩ := isVariableName_iff.1 h
  have hdigit : hasDigit content = false := by
    rw [hasDigit, List.any_eq_false]
    intro c hc hdigit
    have hstart : isNameStart c = true := by simp [isNameStart, hletters c hc]
    rw [not_isNameStart_of_isDigit hdigit] at hstart
    cases hstart
  have hletter : hasLetter content = true := by
    have hhead := List.head_mem hne
    exact List.any_eq_true.2 ⟨content.head hne, hhead, hletters _ hhead⟩
  rw [ofIdentifier, hdigit, hletter]
  rfl

theorem ofIdentifier_of_get?_eq_some {content : Text} {value : Float}
    (h : isVariableName content = true)
    (hvalue : store.get? content = some value) :
    ofIdentifier store content = .ok (.operand (.reference content value)) := by
  rw [ofIdentifier_of_isVariableName h, Operand.ofName, h, hvalue]
  rfl

theorem ofSign_sign (symbol : Symbol) : ofSign [symbol.sign] = .ok (.symbol symbol) := by
  rw [ofSign, Symbol.ofText?_sign]
  rfl

theorem ofTokens_singleton {token : Token} {item : Item} (h : ofToken store token = .ok item) :
    ofTokens store [token] = .ok [item] := by
  rw [ofTokens, List.mapM_cons, h]
  rfl

theorem ofTokens_append {left right : List Token} {first second : List Item}
    (hleft : ofTokens store left = .ok first)
    (hright : ofTokens store right = .ok second) :
    ofTokens store (left ++ right) = .ok (first ++ second) := by
  rw [ofTokens] at hleft hright
  rw [ofTokens, List.mapM_append, hleft, hright]
  rfl

end Item

end LineCalculator
