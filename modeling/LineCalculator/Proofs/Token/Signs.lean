import LineCalculator.Expression.Item
import LineCalculator.Proofs.Evaluation.Machine
import LineCalculator.Proofs.SignRun.Runs
import LineCalculator.Proofs.Token.Spacing

/-!
# Signs as tokens

Every plus and minus sign is a token of its own and an operator. It ends where the next token starts
and every token ends where it starts, so a run of signs that folding has left is cut into as many
operators as it has signs.
-/

namespace LineCalculator

variable {store : Store}

def operatorTokens (signs : Text) : List Token :=
  signs.map fun sign => ⟨[sign], .operator⟩

/-- Whether a token ends where another one starts, whatever follows. -/
def Token.EndsAt (token next : Token) : Prop :=
  ∀ rest : Text, token.EndsBefore (next.content ++ rest)

theorem isLexeme_of_isSign {sign : Char} (h : isSign sign = true) : IsLexeme ⟨[sign], .operator⟩ := by
  rcases isSign_iff.1 h with rfl | rfl <;> exact .operator (by decide)

theorem Token.endsAt_sign (token : Token) {sign : Char} (h : isSign sign = true) :
    token.EndsAt ⟨[sign], .operator⟩ := by
  intro rest
  apply Token.endsBefore_of_head?
  rintro c ⟨rfl⟩
  rcases isSign_iff.1 h with rfl | rfl <;> decide

theorem Spaced.signs {signs blanks text : Text} {next : Token} {tokens : List Token}
    (hsigns : signs ≠ []) (hblanks : ∀ c ∈ blanks, isBlank c = true)
    (h : Spaced Token.EndsAt (next :: tokens) text) :
    Spaced Token.EndsAt (operatorTokens signs ++ next :: tokens) (signs ++ (blanks ++ text)) := by
  induction signs with
  | nil => exact absurd rfl hsigns
  | cons sign signs ih =>
    have hends : ∀ other : Token, (⟨[sign], .operator⟩ : Token).EndsAt other := fun _ _ => trivial
    cases signs with
    | nil => exact .cons hblanks (fun _ => hends next) h
    | cons second signs => exact .touching (hends _) (ih (by simp))

/-- The operator that a sign is. -/
def Operator.ofSign (sign : Char) : Operator :=
  if sign = '-' then .subtraction else .addition

theorem Item.ofToken_isSign {sign : Char} (h : isSign sign = true) :
    ofToken store ⟨[sign], .operator⟩ = .ok (.symbol (.operator (Operator.ofSign sign))) := by
  rcases isSign_iff.1 h with rfl | rfl
  · exact ofSign_sign (.operator .addition)
  · exact ofSign_sign (.operator .subtraction)

theorem Item.ofTokens_operatorTokens {signs : Text} (h : ∀ c ∈ signs, isSign c = true) :
    ofTokens store (operatorTokens signs) = .ok (ofOperators (signs.map Operator.ofSign)) := by
  induction signs with
  | nil => rfl
  | cons sign signs ih =>
    have hsign := h sign List.mem_cons_self
    have hrest : ∀ c ∈ signs, isSign c = true := fun c hc => h c (List.mem_cons_of_mem sign hc)
    exact ofTokens_append (ofTokens_singleton (ofToken_isSign hsign)) (ih hrest)

end LineCalculator
