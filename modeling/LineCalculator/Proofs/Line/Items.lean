import LineCalculator.Evaluation.Line
import LineCalculator.Proofs.Line.Rendering
import LineCalculator.Proofs.Number.Literal

/-!
# Items of the tokens of a line

What lexing takes for a token and what items are made from are told apart by different tests, and
the two fit. A number token is always a literal, and a sign is always an operator or a parenthesis.
So only identifiers can fail, and the first of them that is no bound name says how: with a digit or
without a letter it is no expression, with an underscore it is no name, and a name may be unbound.
-/

namespace LineCalculator

/-- The item that a token becomes. -/
inductive Token.Becomes (store : Store) : Token → Item → Prop
  | number {content : Text} {value : Float} (h : IsNumber content)
      (hread : Number.read? content = some value) :
      Becomes store ⟨content, .number⟩ (.operand (.number value))
  | reference {name : Text} {value : Float} (h : isVariableName name = true)
      (hvalue : store.get? name = some value) :
      Becomes store ⟨name, .identifier⟩ (.operand (.reference name value))
  | operator (operator : Operator) :
      Becomes store ⟨[operator.sign], .operator⟩ (.symbol (.operator operator))
  | leftParen : Becomes store ⟨['('], .punctuation⟩ (.symbol .leftParen)
  | rightParen : Becomes store ⟨[')'], .punctuation⟩ (.symbol .rightParen)

/-- How an identifier fails that is no bound name. -/
inductive Token.Offends (store : Store) : Token → Failure → Prop
  | malformed {content : Text} (h : hasDigit content = true ∨ hasLetter content = false) :
      Offends store ⟨content, .identifier⟩ .invalidExpression
  | underscored {content : Text} (hdigit : hasDigit content = false)
      (hletter : hasLetter content = true) (h : '_' ∈ content) :
      Offends store ⟨content, .identifier⟩ .invalidIdentifier
  | unbound {name : Text} (h : isVariableName name = true) (hvalue : store.get? name = none) :
      Offends store ⟨name, .identifier⟩ (.unknownVariable name)

/-- If the token is an identifier, it is letters only and bound. -/
def Token.Usable (store : Store) (token : Token) : Prop :=
  token.kind = .identifier →
    isVariableName token.content = true ∧ (store.get? token.content).isSome = true

/-! ### One token -/

variable {store : Store} {token : Token} {tokens : List Token} {content : Text}

theorem Token.usable_of_kind_ne (h : token.kind ≠ .identifier) : token.Usable store :=
  fun hkind => absurd hkind h

theorem Item.exists_becomes_number (store : Store) (h : IsNumber content) :
    ∃ item, ofToken store ⟨content, .number⟩ = .ok item ∧
      Token.Becomes store ⟨content, .number⟩ item := by
  obtain ⟨value, hvalue⟩ := Number.exists_read?_of_isNumber h
  exact ⟨_, ofToken_number store hvalue, .number h hvalue⟩

theorem Item.exists_becomes_operator (store : Store) {sign : Char}
    (h : sign ∈ ['+', '-', '*', '/', '^']) :
    ∃ item, ofToken store ⟨[sign], .operator⟩ = .ok item ∧
      Token.Becomes store ⟨[sign], .operator⟩ item := by
  have hsign : ∀ operator : Operator, ofToken store ⟨[operator.sign], .operator⟩ =
      .ok (.symbol (.operator operator)) := fun operator => ofSign_sign (.operator operator)
  simp only [List.mem_cons, List.not_mem_nil, or_false] at h
  rcases h with rfl | rfl | rfl | rfl | rfl
  · exact ⟨_, hsign .addition, .operator .addition⟩
  · exact ⟨_, hsign .subtraction, .operator .subtraction⟩
  · exact ⟨_, hsign .multiplication, .operator .multiplication⟩
  · exact ⟨_, hsign .division, .operator .division⟩
  · exact ⟨_, hsign .exponentiation, .operator .exponentiation⟩

theorem Item.exists_becomes_punctuation (store : Store) {sign : Char} (h : sign ∈ ['(', ')']) :
    ∃ item, ofToken store ⟨[sign], .punctuation⟩ = .ok item ∧
      Token.Becomes store ⟨[sign], .punctuation⟩ item := by
  simp only [List.mem_cons, List.not_mem_nil, or_false] at h
  rcases h with rfl | rfl
  · exact ⟨_, ofSign_sign .leftParen, .leftParen⟩
  · exact ⟨_, ofSign_sign .rightParen, .rightParen⟩

theorem underscore_mem_of_isIdentifier (h : IsIdentifier content)
    (hname : isVariableName content = false) (hdigit : hasDigit content = false) :
    '_' ∈ content := by
  have hne : content ≠ [] := by
    rintro rfl
    obtain ⟨⟨c, hc, -⟩, -⟩ := h
    cases hc
  have hother : ¬ ∀ c ∈ content, c.isAlpha = true := fun hletters => by
    rw [isVariableName_iff.2 ⟨hne, hletters⟩] at hname
    cases hname
  push Not at hother
  obtain ⟨c, hmem, halpha⟩ := hother
  have hpart := h.2 c hmem
  have hnot : c.isDigit = false := by simpa using List.any_eq_false.1 hdigit c hmem
  obtain rfl : c = '_' := by simpa [isNamePart, Char.isAlphanum, halpha, hnot] using hpart
  exact hmem

theorem Item.ofIdentifier_of_malformed (store : Store)
    (h : hasDigit content = true ∨ hasLetter content = false) :
    ofIdentifier store content = .error .invalidExpression := by
  rw [ofIdentifier]
  rcases h with h | h <;> simp [h] <;> rfl

theorem Item.ofIdentifier_of_not_isVariableName (store : Store) (hdigit : hasDigit content = false)
    (hletter : hasLetter content = true) (hname : isVariableName content = false) :
    ofIdentifier store content = .error .invalidIdentifier := by
  rw [ofIdentifier, hdigit, hletter, Operand.ofName, hname]
  rfl

theorem Item.ofIdentifier_of_get?_eq_none (hname : isVariableName content = true)
    (hvalue : store.get? content = none) :
    ofIdentifier store content = .error (.unknownVariable content) := by
  rw [ofIdentifier_of_isVariableName hname, Operand.ofName, hname, hvalue]
  rfl

theorem Item.exists_offends (h : IsIdentifier content)
    (hunusable : ¬ Token.Usable store ⟨content, .identifier⟩) :
    ∃ failure, ofIdentifier store content = .error failure ∧
      Token.Offends store ⟨content, .identifier⟩ failure := by
  by_cases hmalformed : hasDigit content = true ∨ hasLetter content = false
  · exact ⟨_, ofIdentifier_of_malformed store hmalformed, .malformed hmalformed⟩
  · rw [not_or, Bool.not_eq_true, Bool.not_eq_false] at hmalformed
    obtain ⟨hdigit, hletter⟩ := hmalformed
    cases hname : isVariableName content with
    | false =>
      exact ⟨_, ofIdentifier_of_not_isVariableName store hdigit hletter hname,
        .underscored hdigit hletter (underscore_mem_of_isIdentifier h hname hdigit)⟩
    | true =>
      cases hvalue : store.get? content with
      | none => exact ⟨_, ofIdentifier_of_get?_eq_none hname hvalue, .unbound hname hvalue⟩
      | some value =>
        exact absurd (fun _ => ⟨hname, Option.isSome_iff_exists.2 ⟨value, hvalue⟩⟩) hunusable

theorem Item.exists_becomes (h : IsLexeme token) (husable : token.Usable store) :
    ∃ item, ofToken store token = .ok item ∧ token.Becomes store item := by
  cases h with
  | number h => exact exists_becomes_number store h
  | identifier h =>
    obtain ⟨hname, hsome⟩ := husable rfl
    obtain ⟨value, hvalue⟩ := Option.isSome_iff_exists.1 hsome
    exact ⟨_, ofIdentifier_of_get?_eq_some hname hvalue, .reference hname hvalue⟩
  | operator h => exact exists_becomes_operator store h
  | punctuation h => exact exists_becomes_punctuation store h

theorem Item.exists_ofToken_eq_error (h : IsLexeme token) (hunusable : ¬ token.Usable store) :
    ∃ failure, ofToken store token = .error failure ∧ token.Offends store failure := by
  cases h with
  | number => exact absurd (Token.usable_of_kind_ne (by simp)) hunusable
  | identifier h => exact exists_offends h hunusable
  | operator => exact absurd (Token.usable_of_kind_ne (by simp)) hunusable
  | punctuation => exact absurd (Token.usable_of_kind_ne (by simp)) hunusable

/-! ### All tokens -/

theorem Item.ofTokens_cons (store : Store) (token : Token) (tokens : List Token) :
    ofTokens store (token :: tokens) = do
      let item ← ofToken store token
      return item :: (← ofTokens store tokens) :=
  List.mapM_cons

theorem Item.exists_forall₂_becomes (h : ∀ token ∈ tokens, IsLexeme token)
    (husable : ∀ token ∈ tokens, token.Usable store) :
    ∃ items, ofTokens store tokens = .ok items ∧ List.Forall₂ (Token.Becomes store) tokens items := by
  induction tokens with
  | nil => exact ⟨[], rfl, .nil⟩
  | cons token tokens ih =>
    obtain ⟨item, hitem, hbecomes⟩ :=
      exists_becomes (h token List.mem_cons_self) (husable token List.mem_cons_self)
    obtain ⟨items, hitems, hrest⟩ := ih (fun other hmem => h other (List.mem_cons_of_mem _ hmem))
      fun other hmem => husable other (List.mem_cons_of_mem _ hmem)
    refine ⟨item :: items, ?_, .cons hbecomes hrest⟩
    rw [ofTokens_cons, hitem, hitems]
    rfl

/-- The leftmost token that cannot be used offends so. -/
def Token.FirstOffends (store : Store) (tokens : List Token) (failure : Failure) : Prop :=
  ∃ before token behind, tokens = before ++ token :: behind ∧
    (∀ other ∈ before, other.Usable store) ∧ ¬ token.Usable store ∧ token.Offends store failure

theorem Item.exists_firstOffends (h : ∀ token ∈ tokens, IsLexeme token)
    (hunusable : ¬ ∀ token ∈ tokens, token.Usable store) :
    ∃ failure, ofTokens store tokens = .error failure ∧ Token.FirstOffends store tokens failure := by
  induction tokens with
  | nil => exact absurd (List.forall_mem_nil _) hunusable
  | cons token tokens ih =>
    have hlexeme := h token List.mem_cons_self
    by_cases husable : token.Usable store
    · obtain ⟨item, hitem, -⟩ := exists_becomes hlexeme husable
      have hrest : ¬ ∀ other ∈ tokens, other.Usable store := fun hall =>
        hunusable (List.forall_mem_cons.2 ⟨husable, hall⟩)
      obtain ⟨failure, hfailure, before, other, behind, rfl, hbefore, hother⟩ :=
        ih (fun other hmem => h other (List.mem_cons_of_mem _ hmem)) hrest
      refine ⟨failure, ?_, token :: before, other, behind, rfl, ?_, hother⟩
      · rw [ofTokens_cons, hitem, hfailure]
        rfl
      · exact List.forall_mem_cons.2 ⟨husable, hbefore⟩
    · obtain ⟨failure, hfailure, hoffends⟩ := exists_ofToken_eq_error hlexeme husable
      refine ⟨failure, ?_, [], token, tokens, rfl, List.forall_mem_nil _, husable, hoffends⟩
      rw [ofTokens_cons, hfailure]
      rfl

theorem Item.forall₂_becomes_of_ofTokens (h : ∀ token ∈ tokens, IsLexeme token) {items : List Item}
    (hitems : ofTokens store tokens = .ok items) :
    List.Forall₂ (Token.Becomes store) tokens items := by
  by_cases husable : ∀ token ∈ tokens, token.Usable store
  · obtain ⟨found, hfound, hbecome⟩ := exists_forall₂_becomes h husable
    rw [hitems] at hfound
    cases hfound
    exact hbecome
  · obtain ⟨failure, hfailure, -⟩ := exists_firstOffends h husable
    rw [hitems] at hfailure
    cases hfailure

/-! ### Lines -/

/-- How an expression's tokens and its items agree. -/
structure Line.ItemsAgree (lexing : Lexing) (store : Store) (tokens : List Token) : Prop where
  succeeds : (∃ items after,
      ((Line.expression tokens).toItems lexing).run store = .ok items after) ↔
    ∀ token ∈ tokens, token.Usable store
  items : ∀ items after, ((Line.expression tokens).toItems lexing).run store = .ok items after →
    after = store ∧ List.Forall₂ (Token.Becomes store) tokens items
  fails : ∀ failure after,
    ((Line.expression tokens).toItems lexing).run store = .error failure after →
      after = store ∧ Token.FirstOffends store tokens failure
  others : ∀ token ∈ tokens, token.kind ≠ .identifier →
    ∃ item, Item.ofToken store token = .ok item

/-- Tokens that a line was cut into become items one by one, unless an identifier is no bound name. -/
theorem Line.itemsAgree_of_read {reading : Lexing} {text : Text}
    (h : Line.read reading text = .ok (.expression tokens)) (lexing : Lexing) (store : Store) :
    Line.ItemsAgree lexing store tokens := by
  have hlexemes : ∀ token ∈ tokens, IsLexeme token := fun _ =>
    isLexeme_of_mem_tokenize (Line.tokenize_of_read_eq_expression h)
  have hothers : ∀ token ∈ tokens, token.kind ≠ .identifier →
      ∃ item, Item.ofToken store token = .ok item := fun token hmem hkind => by
    obtain ⟨item, hitem, -⟩ :=
      Item.exists_becomes (hlexemes token hmem) (Token.usable_of_kind_ne hkind)
    exact ⟨item, hitem⟩
  by_cases husable : ∀ token ∈ tokens, token.Usable store
  · obtain ⟨items, hitems, hbecome⟩ := Item.exists_forall₂_becomes hlexemes husable
    have hrun : ((Line.expression tokens).toItems lexing).run store = .ok items store := by
      rw [run_toItems_expression, hitems]
      rfl
    refine ⟨iff_of_true ⟨items, store, hrun⟩ husable, ?_, ?_, hothers⟩
    · intro found after hfound
      rw [hrun] at hfound
      cases hfound
      exact ⟨rfl, hbecome⟩
    · intro failure after hfailure
      rw [hrun] at hfailure
      cases hfailure
  · obtain ⟨failure, hfailure, hoffends⟩ := Item.exists_firstOffends hlexemes husable
    have hrun : ((Line.expression tokens).toItems lexing).run store = .error failure store := by
      rw [run_toItems_expression, hfailure]
      rfl
    refine ⟨iff_of_false ?_ husable, ?_, ?_, hothers⟩
    · rintro ⟨items, after, hitems⟩
      rw [hrun] at hitems
      cases hitems
    · intro items after hitems
      rw [hrun] at hitems
      cases hitems
    · intro found after hfound
      rw [hrun] at hfound
      cases hfound
      exact ⟨rfl, hoffends⟩

theorem Line.itemsAgree_of_read_underscored :
    Line.read .strict "2 + my_var - x1".toList = .ok (.expression [⟨['2'], .number⟩,
        ⟨['+'], .operator⟩, ⟨"my_var".toList, .identifier⟩, ⟨['-'], .operator⟩,
        ⟨"x1".toList, .identifier⟩]) ∧
      Line.ItemsAgree .permissive ∅ [⟨['2'], .number⟩, ⟨['+'], .operator⟩,
        ⟨"my_var".toList, .identifier⟩, ⟨['-'], .operator⟩, ⟨"x1".toList, .identifier⟩] ∧
      ((Line.expression [⟨['2'], .number⟩, ⟨['+'], .operator⟩, ⟨"my_var".toList, .identifier⟩,
        ⟨['-'], .operator⟩, ⟨"x1".toList, .identifier⟩]).toItems .permissive).run ∅ =
          .error .invalidIdentifier ∅ := by
  have htwo : IsLexeme ⟨['2'], .number⟩ := .number (.whole ⟨by simp, by simp⟩)
  have hname : IsLexeme ⟨"my_var".toList, .identifier⟩ :=
    .identifier ⟨⟨'m', rfl, rfl⟩, List.all_eq_true.1 rfl⟩
  have hbroken : IsLexeme ⟨"x1".toList, .identifier⟩ :=
    .identifier ⟨⟨'x', rfl, rfl⟩, List.all_eq_true.1 rfl⟩
  have hlexemes : ∀ token ∈ [⟨['2'], .number⟩, ⟨['+'], .operator⟩, ⟨"my_var".toList, .identifier⟩,
      ⟨['-'], .operator⟩, ⟨"x1".toList, .identifier⟩], IsLexeme token := by
    simp only [List.forall_mem_cons]
    exact ⟨htwo, .operator (by simp), hname, .operator (by simp), hbroken, List.forall_mem_nil _⟩
  have hread := (separated_joinTokens _).read_eq .strict hlexemes
  refine ⟨hread, Line.itemsAgree_of_read hread .permissive ∅, ?_⟩
  rw [run_toItems_expression]
  rfl

end LineCalculator
