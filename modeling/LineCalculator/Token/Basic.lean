import LineCalculator.Text.Blank

/-!
# Tokens

A token's kind is settled by its first character, and every character that can start a token does
start one: a digit a number, a letter or an underscore an identifier, a parenthesis or an arithmetic
sign itself. All classes are ASCII, so a letter or digit of another script starts nothing.
-/

namespace LineCalculator

inductive TokenKind where
  | identifier
  | number
  | operator
  | punctuation
deriving DecidableEq

structure Token where
  content : Text
  kind : TokenKind
deriving DecidableEq

def isNameStart (c : Char) : Bool :=
  c.isAlpha || c == '_'

def isNamePart (c : Char) : Bool :=
  c.isAlphanum || c == '_'

/-- Names of variables are letters only, which is less than an identifier token may hold. -/
def isVariableName (text : Text) : Bool :=
  !text.isEmpty && text.all Char.isAlpha

def hasLetter (text : Text) : Bool :=
  text.any Char.isAlpha

def hasDigit (text : Text) : Bool :=
  text.any Char.isDigit

/-- The kind of token that a character starts, if it starts one. -/
def TokenKind.startedBy? (c : Char) : Option TokenKind :=
  if c.isDigit then some .number
  else if isNameStart c then some .identifier
  else if c = '(' ∨ c = ')' then some .punctuation
  else if c = '+' ∨ c = '-' ∨ c = '*' ∨ c = '/' ∨ c = '^' then some .operator
  else none

def startsToken (c : Char) : Bool :=
  (TokenKind.startedBy? c).isSome

theorem isNamePart_of_isNameStart {c : Char} (h : isNameStart c = true) : isNamePart c = true := by
  simp only [isNameStart, isNamePart, Char.isAlphanum, Bool.or_eq_true] at h ⊢
  grind

theorem toNat_of_isAlpha {c : Char} (h : c.isAlpha = true) :
    65 ≤ c.toNat ∧ c.toNat ≤ 90 ∨ 97 ≤ c.toNat ∧ c.toNat ≤ 122 := by
  change (decide ('A'.val ≤ c.val ∧ c.val ≤ 'Z'.val) || 'a'.val ≤ c.val && c.val ≤ 'z'.val) = true at h
  simp only [Bool.or_eq_true, Bool.and_eq_true, decide_eq_true_eq, UInt32.le_iff_toNat_le] at h
  exact h

theorem not_isNameStart_of_isDigit {c : Char} (h : c.isDigit = true) : isNameStart c = false := by
  rw [Bool.eq_false_iff]
  intro hstart
  rw [isNameStart, Bool.or_eq_true, beq_iff_eq] at hstart
  rcases hstart with hletter | rfl
  · have hbounds := toNat_of_isAlpha hletter
    rw [Char.isDigit_iff_toNat] at h
    simp at h
    omega
  · cases h

theorem not_isAlpha_of_isDigit {c : Char} (h : c.isDigit = true) : c.isAlpha = false := by
  have hstart := not_isNameStart_of_isDigit h
  rw [isNameStart, Bool.or_eq_false_iff] at hstart
  exact hstart.1

theorem startedBy?_eq_number {c : Char} :
    TokenKind.startedBy? c = some .number ↔ c.isDigit = true := by
  unfold TokenKind.startedBy?
  grind

theorem startedBy?_eq_identifier {c : Char} :
    TokenKind.startedBy? c = some .identifier ↔ isNameStart c = true := by
  unfold TokenKind.startedBy?
  grind [not_isNameStart_of_isDigit]

theorem startedBy?_eq_punctuation {c : Char} :
    TokenKind.startedBy? c = some .punctuation ↔ c = '(' ∨ c = ')' := by
  constructor
  · unfold TokenKind.startedBy?
    grind
  · rintro (rfl | rfl) <;> rfl

theorem startedBy?_eq_operator {c : Char} :
    TokenKind.startedBy? c = some .operator ↔ c = '+' ∨ c = '-' ∨ c = '*' ∨ c = '/' ∨ c = '^' := by
  constructor
  · unfold TokenKind.startedBy?
    grind
  · rintro (rfl | rfl | rfl | rfl | rfl) <;> rfl

theorem startsToken_of_isNamePart {c : Char} (h : isNamePart c = true) : startsToken c = true := by
  unfold startsToken TokenKind.startedBy?
  grind [isNamePart, isNameStart, Char.isAlphanum]

/-- The characters that start tokens are those of tokens, but for the point of a number. -/
theorem startsToken_iff {c : Char} :
    startsToken c = true ↔
      c.isDigit = true ∨ c.isAlpha = true ∨ c ∈ ['_', '(', ')', '*', '/', '+', '^', '-'] := by
  simp only [List.mem_cons, List.not_mem_nil, or_false]
  unfold startsToken TokenKind.startedBy?
  grind [isNameStart]

theorem toNat_of_startsToken {c : Char} (h : startsToken c = true) :
    0x20 < c.toNat ∧ c.toNat < 0x7F := by
  rcases startsToken_iff.1 h with hdigit | hletter | hsign
  · rw [Char.isDigit_iff_toNat] at hdigit
    simp at hdigit
    omega
  · have hbounds := toNat_of_isAlpha hletter
    omega
  · have hbounds : ['_', '(', ')', '*', '/', '+', '^', '-'].all
        fun sign => 0x20 < sign.toNat ∧ sign.toNat < 0x7F := by decide
    exact of_decide_eq_true (List.all_eq_true.1 hbounds c hsign)

/-- All of Unicode's blanks lie outside the range of printable ASCII. -/
theorem not_startsToken_of_isBlank {c : Char} (h : isBlank c = true) : startsToken c = false := by
  rw [← Bool.not_eq_true]
  intro hstarts
  have hblank := toNat_of_isBlank h
  have htoken := toNat_of_startsToken hstarts
  omega

theorem not_isBlank_of_startsToken {c : Char} (h : startsToken c = true) : isBlank c = false := by
  rw [Bool.eq_false_iff]
  intro hblank
  rw [not_startsToken_of_isBlank hblank] at h
  cases h

theorem startsToken_of_isAlpha {c : Char} (h : c.isAlpha = true) : startsToken c = true :=
  startsToken_of_isNamePart (by simp [isNamePart, Char.isAlphanum, h])

theorem not_isBlank_of_isAlpha {c : Char} (h : c.isAlpha = true) : isBlank c = false :=
  not_isBlank_of_startsToken (startsToken_of_isAlpha h)

theorem isVariableName_iff {text : Text} :
    isVariableName text = true ↔ text ≠ [] ∧ ∀ c ∈ text, c.isAlpha = true := by
  simp [isVariableName]

/-- The tokens' contents with one space between them. -/
def joinTokens (tokens : List Token) : Text :=
  [' '].intercalate (tokens.map Token.content)

@[simp] theorem joinTokens_nil : joinTokens [] = [] :=
  rfl

@[simp] theorem joinTokens_singleton (token : Token) : joinTokens [token] = token.content := by
  simp [joinTokens, List.intercalate]

theorem joinTokens_cons_cons (first second : Token) (rest : List Token) :
    joinTokens (first :: second :: rest) = first.content ++ ' ' :: joinTokens (second :: rest) := by
  simp [joinTokens, List.intercalate]

/-- A joined text holds the tokens' characters and spaces. -/
theorem mem_joinTokens_iff {tokens : List Token} {c : Char} (h : c ≠ ' ') :
    c ∈ joinTokens tokens ↔ ∃ token ∈ tokens, c ∈ token.content := by
  induction tokens with
  | nil => simp
  | cons first rest ih =>
    cases rest with
    | nil => simp
    | cons second rest =>
      rw [joinTokens_cons_cons, List.mem_append, List.mem_cons, ih]
      simp [h]

end LineCalculator
