import LineCalculator.Proofs.Evaluation.Assignment
import LineCalculator.Proofs.Number.Notation

/-!
# Typing printed numbers back

A number that is printed plainly can be assigned again, whatever its sign, since the text assigned
has no letters and is read as a literal. As a line of its own it is cut into tokens, and there a
minus sign in front is an operator without a left operand. With an exponent the text has a letter,
so both lines are cut into tokens and come to the same: the exponent is taken for a name or for a
difference, and `1.5e-7` is the value of `e` less seven if that variable is bound.
-/

namespace LineCalculator

open Number (signText)

/-- The token of a sign, if there is one. -/
def signTokens (negative : Bool) : List Token :=
  if negative then [⟨['-'], .operator⟩] else []

variable {lexing : Lexing} {store : Store} {name text content digits : Text}

/-! ### The tokens of printed numbers -/

theorem isLexeme_minus : IsLexeme ⟨['-'], .operator⟩ :=
  .operator (by decide)

theorem isLexeme_of_mem_signed {tokens : List Token} (negative : Bool)
    (h : ∀ token ∈ tokens, IsLexeme token) :
    ∀ token ∈ signTokens negative ++ tokens, IsLexeme token := by
  cases negative with
  | true => exact List.forall_mem_cons.2 ⟨isLexeme_minus, h⟩
  | false => exact h

theorem Spaced.signed {token : Token} {tokens : List Token}
    (h : Spaced Token.PartsFrom (token :: tokens) text) (hkind : token.kind ≠ .operator)
    (negative : Bool) :
    Spaced Token.PartsFrom (signTokens negative ++ token :: tokens) (signText negative ++ text) := by
  cases negative with
  | true => exact h.touching ⟨fun _ => trivial, fun hboth => hkind hboth.2⟩
  | false => exact h

theorem spaced_signed_number (negative : Bool) (content : Text) :
    Spaced Token.PartsFrom (signTokens negative ++ [⟨content, .number⟩])
      (signText negative ++ content) := by
  have hspaced : Spaced Token.PartsFrom [⟨content, .number⟩] content := .single _
  exact hspaced.signed (by simp) negative

theorem isLexeme_of_mem_signed_number (negative : Bool) (h : IsNumber content) :
    ∀ token ∈ signTokens negative ++ [⟨content, .number⟩], IsLexeme token :=
  isLexeme_of_mem_signed negative (List.forall_mem_singleton.2 (.number h))

theorem number_partsFrom_e (content rest : Text) :
    (⟨content, .number⟩ : Token).PartsFrom ⟨'e' :: rest, .identifier⟩ := by
  refine ⟨fun more => ⟨?_, ?_⟩, fun hboth => by cases hboth.1⟩
  · rintro c ⟨rfl⟩
    rfl
  · rintro - d after heq
    cases heq

theorem e_partsFrom_minus : (⟨['e'], .identifier⟩ : Token).PartsFrom ⟨['-'], .operator⟩ := by
  refine ⟨fun more => ?_, fun hboth => by cases hboth.1⟩
  rintro c ⟨rfl⟩
  rfl

theorem minus_partsFrom_number (content : Text) :
    (⟨['-'], .operator⟩ : Token).PartsFrom ⟨content, .number⟩ :=
  ⟨fun _ => trivial, fun hboth => by cases hboth.2⟩

/-- The letter `e` and the digits of an exponent are one name. -/
theorem spaced_name (negative : Bool) (content digits : Text) :
    Spaced Token.PartsFrom (signTokens negative ++ [⟨content, .number⟩, ⟨'e' :: digits, .identifier⟩])
      (signText negative ++ (content ++ 'e' :: digits)) := by
  have hname : Spaced Token.PartsFrom [⟨'e' :: digits, .identifier⟩] ('e' :: digits) := .single _
  exact (hname.touching (number_partsFrom_e content digits)).signed (by simp) negative

/-- The minus sign of an exponent stands between two tokens. -/
theorem spaced_difference (negative : Bool) (content digits : Text) :
    Spaced Token.PartsFrom (signTokens negative ++ [⟨content, .number⟩, ⟨['e'], .identifier⟩,
        ⟨['-'], .operator⟩, ⟨digits, .number⟩])
      (signText negative ++ (content ++ 'e' :: '-' :: digits)) := by
  have hdigits : Spaced Token.PartsFrom [⟨digits, .number⟩] digits := .single _
  have hminus := hdigits.touching (minus_partsFrom_number digits)
  have he := hminus.touching e_partsFrom_minus
  exact (he.touching (number_partsFrom_e content [])).signed (by simp) negative

/-! ### What they come to -/

theorem evaluateExpression_of_spaced (lexing : Lexing) (store : Store) {tokens : List Token}
    (h : Spaced Token.PartsFrom tokens text) (hlexemes : ∀ token ∈ tokens, IsLexeme token) :
    evaluateExpression lexing store text = Item.ofTokens store tokens >>= evaluateItems := by
  rw [evaluateExpression, h.tokenize_eq lexing hlexemes]
  rfl

/-- The first token that becomes no item decides. -/
theorem Item.ofTokens_eq_error {left right : List Token} {token : Token} {items : List Item}
    {failure : Failure} (hleft : ofTokens store left = .ok items)
    (htoken : ofToken store token = .error failure) :
    ofTokens store (left ++ token :: right) = .error failure := by
  rw [ofTokens] at hleft
  rw [ofTokens, List.mapM_append, hleft, List.mapM_cons, htoken]
  rfl

theorem Item.ofTokens_signTokens (store : Store) (negative : Bool) :
    ∃ items, ofTokens store (signTokens negative) = .ok items := by
  cases negative <;> exact ⟨_, rfl⟩

/-! ### Lines -/

/-- A text comes to a failure, both assigned to a name and as a line of its own. -/
structure Refused (lexing : Lexing) (store : Store) (name text : Text) (failure : Failure) : Prop where
  assigned : (evaluateLine lexing (name ++ " = ".toList ++ text)).run store = .error failure store
  alone : (evaluateLine lexing text).run store = .error failure store

theorem run_evaluateLine_equals (lexing : Lexing) (store : Store) (hname : isVariableName name = true)
    (hequals : '=' ∉ text) (hletter : hasLetter text = true) :
    (∃ number, (evaluateLine lexing text).run store = .ok (.value number) store ∧
      (evaluateLine lexing (name ++ " = ".toList ++ text)).run store =
        .ok (.binding name number) (store.assign name number)) ∨
    ∃ failure, Refused lexing store name text failure := by
  have hline := Line.equals_between_spaces name text
  rcases run_evaluateLine_assignment lexing store hname hequals hletter
      blank_nil blank_space blank_space blank_nil with
    ⟨number, halone, hassigned⟩ | ⟨failure, halone, hassigned⟩
  · rw [← hline] at hassigned
    exact .inl ⟨number, halone, hassigned⟩
  · rw [← hline] at hassigned
    exact .inr ⟨failure, hassigned, halone⟩

theorem refused_of_evaluateExpression (hname : isVariableName name = true) (hequals : '=' ∉ text)
    (hletter : hasLetter text = true) {failure : Failure}
    (h : evaluateExpression lexing store text = .error failure) :
    Refused lexing store name text failure := by
  have halone := run_evaluateLine_of_not_mem lexing store hequals
  rw [h] at halone
  rcases run_evaluateLine_equals lexing store hname hequals hletter with
    ⟨number, hnumber, -⟩ | ⟨found, hrefused⟩
  · rw [halone] at hnumber
    cases hnumber
  · have hfound := hrefused.alone
    rw [halone] at hfound
    cases hfound
    exact hrefused

theorem run_evaluateLine_of_evaluateExpression (hname : isVariableName name = true)
    (hequals : '=' ∉ text) (hletter : hasLetter text = true) {value : Float}
    (h : evaluateExpression lexing store text = .ok (.value value)) :
    (evaluateLine lexing text).run store = .ok (.value value) store ∧
    (evaluateLine lexing (name ++ " = ".toList ++ text)).run store =
      .ok (.binding name value) (store.assign name value) := by
  have halone := run_evaluateLine_of_not_mem lexing store hequals
  rw [h] at halone
  refine ⟨halone, ?_⟩
  rcases run_evaluateLine_equals lexing store hname hequals hletter with
    ⟨number, hnumber, hassigned⟩ | ⟨found, hrefused⟩
  · rw [halone] at hnumber
    cases hnumber
    exact hassigned
  · have hfound := hrefused.alone
    rw [halone] at hfound
    cases hfound

/-! ### Each notation -/

theorem Item.ofToken_unbound (hname : isVariableName name = true) (h : store.get? name = none) :
    ofToken store ⟨name, .identifier⟩ = .error (.unknownVariable name) := by
  simp only [ofToken, ofIdentifier_of_isVariableName hname, Operand.ofName, hname, h]
  rfl

theorem Item.ofTokens_signed_number (store : Store) (negative : Bool) (h : IsNumber content) :
    ∃ items, ofTokens store (signTokens negative ++ [⟨content, .number⟩]) = .ok items := by
  obtain ⟨value, hvalue⟩ := Number.exists_read?_of_isNumber h
  obtain ⟨items, hitems⟩ := ofTokens_signTokens store negative
  exact ⟨_, ofTokens_append hitems (ofTokens_singleton (ofToken_number store hvalue))⟩

theorem hasLetter_signed_e (negative : Bool) (content rest : Text) :
    hasLetter (signText negative ++ (content ++ 'e' :: rest)) = true := by
  rw [hasLetter, List.any_append, List.any_append, List.any_cons]
  simp

theorem refused_of_token (lexing : Lexing) (hname : isVariableName name = true)
    {left right : List Token} {token : Token} {items : List Item} {failure : Failure}
    (hspaced : Spaced Token.PartsFrom (left ++ token :: right) text)
    (hlexemes : ∀ other ∈ left ++ token :: right, IsLexeme other) (hletter : hasLetter text = true)
    (hleft : Item.ofTokens store left = .ok items)
    (htoken : Item.ofToken store token = .error failure) :
    Refused lexing store name text failure := by
  apply refused_of_evaluateExpression hname (hspaced.equals_not_mem hlexemes) hletter
  rw [evaluateExpression_of_spaced lexing store hspaced hlexemes, Item.ofTokens_eq_error hleft htoken]
  rfl

theorem isIdentifier_e (h : IsDigits digits) : IsIdentifier ('e' :: digits) := by
  refine ⟨⟨'e', rfl, rfl⟩, List.forall_mem_cons.2 ⟨rfl, fun c hc => ?_⟩⟩
  simp [isNamePart, Char.isAlphanum, h.2 c hc]

/-- A name that ends in digits is no variable. -/
theorem refused_name (lexing : Lexing) (store : Store) (hname : isVariableName name = true)
    (negative : Bool) (hnumber : IsNumber content) (hdigits : IsDigits digits) :
    Refused lexing store name (signText negative ++ (content ++ 'e' :: digits)) .invalidExpression := by
  have hspaced := spaced_name negative content digits
  have hlexemes := isLexeme_of_mem_signed negative (List.forall_mem_cons.2
    ⟨IsLexeme.number hnumber, List.forall_mem_singleton.2 (.identifier (isIdentifier_e hdigits))⟩)
  rw [List.append_cons] at hspaced hlexemes
  have hletter := hasLetter_signed_e negative content digits
  obtain ⟨items, hitems⟩ := Item.ofTokens_signed_number store negative hnumber
  have hdigit : hasDigit ('e' :: digits) = true := by
    obtain ⟨c, rest, rfl, hc⟩ := hdigits.exists_cons
    simp [hasDigit, hc]
  have hfail : Item.ofToken store ⟨'e' :: digits, .identifier⟩ = .error .invalidExpression := by
    rw [Item.ofToken, Item.ofIdentifier, hdigit]
    rfl
  exact refused_of_token lexing hname hspaced hlexemes hletter hitems hfail

theorem isLexeme_of_mem_difference (negative : Bool) (hnumber : IsNumber content)
    (hdigits : IsDigits digits) : ∀ token ∈ signTokens negative ++ [⟨content, .number⟩,
      ⟨['e'], .identifier⟩, ⟨['-'], .operator⟩, ⟨digits, .number⟩], IsLexeme token := by
  apply isLexeme_of_mem_signed
  simp only [List.forall_mem_cons, List.not_mem_nil, false_implies, implies_true, and_true]
  exact ⟨.number hnumber, .identifier (isIdentifier_of_isVariableName rfl), isLexeme_minus,
    .number (.whole hdigits)⟩

theorem refused_difference (lexing : Lexing) (hname : isVariableName name = true) (negative : Bool)
    (hnumber : IsNumber content) (hdigits : IsDigits digits) (h : store.get? ['e'] = none) :
    Refused lexing store name (signText negative ++ (content ++ 'e' :: '-' :: digits))
      (.unknownVariable ['e']) := by
  have hspaced := spaced_difference negative content digits
  have hlexemes := isLexeme_of_mem_difference negative hnumber hdigits
  rw [List.append_cons] at hspaced hlexemes
  have hletter := hasLetter_signed_e negative content ('-' :: digits)
  obtain ⟨items, hitems⟩ := Item.ofTokens_signed_number store negative hnumber
  exact refused_of_token lexing hname hspaced hlexemes hletter hitems (Item.ofToken_unbound rfl h)

theorem refused_word (lexing : Lexing) (hname : isVariableName name = true) (negative : Bool)
    {word : Text} (hword : isVariableName word = true) (h : store.get? word = none) :
    Refused lexing store name (signText negative ++ word) (.unknownVariable word) := by
  have hspaced : Spaced Token.PartsFrom [⟨word, .identifier⟩] word := .single _
  have hlexemes := isLexeme_of_mem_signed negative
    (List.forall_mem_singleton.2 (IsLexeme.identifier (isIdentifier_of_isVariableName hword)))
  have hletter : hasLetter (signText negative ++ word) = true := by
    obtain ⟨hne, hletters⟩ := isVariableName_iff.1 hword
    have hhead := List.head_mem hne
    exact List.any_eq_true.2 ⟨_, List.mem_append_right _ hhead, hletters _ hhead⟩
  obtain ⟨items, hitems⟩ := Item.ofTokens_signTokens store negative
  exact refused_of_token lexing hname (hspaced.signed (by simp) negative) hlexemes hletter hitems
    (Item.ofToken_unbound hword h)

/-- With a value for `e` the text is a number beside a difference, and the number is lost. -/
theorem evaluateExpression_difference (lexing : Lexing) (hnumber : IsNumber content)
    (hdigits : IsDigits digits) {bound subtrahend : Float} (hbound : store.get? ['e'] = some bound)
    (hread : Number.read? digits = some subtrahend) :
    evaluateExpression lexing store (content ++ 'e' :: '-' :: digits) =
      .ok (.value (bound - subtrahend)) := by
  obtain ⟨value, hvalue⟩ := Number.exists_read?_of_isNumber hnumber
  have hfirst := Item.ofTokens_singleton (Item.ofToken_number store hvalue)
  have he : Item.ofToken store ⟨['e'], .identifier⟩ = .ok (.operand (.reference ['e'] bound)) :=
    Item.ofIdentifier_of_get?_eq_some rfl hbound
  have hminus : Item.ofToken store ⟨['-'], .operator⟩ = .ok (.symbol (.operator .subtraction)) :=
    Item.ofSign_sign (.operator .subtraction)
  have hlast := Item.ofTokens_singleton (Item.ofToken_number store hread)
  have hitems := Item.ofTokens_append hfirst (Item.ofTokens_append (Item.ofTokens_singleton he)
    (Item.ofTokens_append (Item.ofTokens_singleton hminus) hlast))
  have hevaluate := evaluateExpression_of_spaced lexing store (spaced_difference false content digits)
    (isLexeme_of_mem_difference false hnumber hdigits)
  exact hevaluate.trans (congrArg (· >>= evaluateItems) hitems)

/-! ### Plain notation -/

theorem hasLetter_signed {whole fraction : Text} (negative : Bool) (hwhole : IsDigits whole)
    (hfraction : IsDigits fraction) :
    hasLetter (signText negative ++ (whole ++ '.' :: fraction)) = false := by
  have hdigits : ∀ {part : Text}, IsDigits part → part.any Char.isAlpha = false := by
    intro part hpart
    rw [List.any_eq_false]
    intro c hc
    simp [not_isAlpha_of_isDigit (hpart.2 c hc)]
  have hsign : (signText negative).any Char.isAlpha = false := by cases negative <;> rfl
  rw [hasLetter, List.any_append, List.any_append, List.any_cons, hsign, hdigits hwhole,
    hdigits hfraction]
  rfl

theorem run_evaluateLine_literal (lexing : Lexing) (store : Store) (hname : isVariableName name = true)
    {whole fraction : Text} (negative : Bool) (hwhole : IsDigits whole) (hfraction : IsDigits fraction)
    {value : Float}
    (hread : Number.read? (signText negative ++ (whole ++ '.' :: fraction)) = some value) :
    (evaluateLine lexing
        (name ++ " = ".toList ++ (signText negative ++ (whole ++ '.' :: fraction)))).run store =
      .ok (.binding name value) (store.assign name value) := by
  have hspaced := spaced_signed_number negative (whole ++ '.' :: fraction)
  have hlexemes := isLexeme_of_mem_signed_number negative (.decimal hwhole hfraction)
  have hletter := hasLetter_signed negative hwhole hfraction
  have htrim := hspaced.trim_eq hlexemes
  have hne : trim (signText negative ++ (whole ++ '.' :: fraction)) ≠ [] := by
    rw [htrim]
    simp
  have hline := Line.read_equals_between_spaces lexing hname (hspaced.equals_not_mem hlexemes) hne
  rw [htrim, Line.readValue_of_not_hasLetter lexing hletter] at hline
  rw [run_evaluateLine_of_read_eq_assignment hline, assignedNumber, hletter, hread]
  rfl

theorem evaluateExpression_number (lexing : Lexing) (store : Store) (hnumber : IsNumber content)
    {value : Float} (hread : Number.read? content = some value) :
    evaluateExpression lexing store content = .ok (.value value) := by
  have hevaluate := evaluateExpression_of_spaced lexing store (spaced_signed_number false content)
    (isLexeme_of_mem_signed_number false hnumber)
  have hitems := Item.ofTokens_singleton (Item.ofToken_number store hread)
  exact hevaluate.trans (congrArg (· >>= evaluateItems) hitems)

/-- A minus sign in front of a line has no left operand. -/
theorem evaluateExpression_minus_number (lexing : Lexing) (store : Store) (hnumber : IsNumber content) :
    evaluateExpression lexing store (signText true ++ content) = .error .invalidExpression := by
  have hevaluate := evaluateExpression_of_spaced lexing store (spaced_signed_number true content)
    (isLexeme_of_mem_signed_number true hnumber)
  obtain ⟨value, hvalue⟩ := Number.exists_read?_of_isNumber hnumber
  have hminus : Item.ofToken store ⟨['-'], .operator⟩ = .ok (.symbol (.operator .subtraction)) :=
    Item.ofSign_sign (.operator .subtraction)
  have hitems := Item.ofTokens_append (Item.ofTokens_singleton hminus)
    (Item.ofTokens_singleton (Item.ofToken_number store hvalue))
  exact hevaluate.trans (congrArg (· >>= evaluateItems) hitems)

theorem run_evaluateLine_plain (lexing : Lexing) (store : Store) (hname : isVariableName name = true)
    (h : Number.Plain text) {value : Float} (hread : Number.read? text = some value) :
    (evaluateLine lexing (name ++ " = ".toList ++ text)).run store =
      .ok (.binding name value) (store.assign name value) ∧
    ('-' ∉ text → (evaluateLine lexing text).run store = .ok (.value value) store) ∧
    (text.head? = some '-' →
      (evaluateLine lexing text).run store = .error .invalidExpression store) := by
  cases h with
  | @mk negative whole fraction hwhole hfraction =>
    have hnumber : IsNumber (whole ++ '.' :: fraction) := .decimal hwhole hfraction
    have hequals := (spaced_signed_number negative (whole ++ '.' :: fraction)).equals_not_mem
      (isLexeme_of_mem_signed_number negative hnumber)
    have halone := run_evaluateLine_of_not_mem lexing store hequals
    refine ⟨run_evaluateLine_literal lexing store hname negative hwhole hfraction hread, ?_, ?_⟩
    · intro hminus
      cases negative with
      | true => simp [signText] at hminus
      | false =>
        have hvalue : evaluateExpression lexing store (signText false ++ (whole ++ '.' :: fraction)) =
            .ok (.value value) := evaluateExpression_number lexing store hnumber hread
        rw [halone, hvalue]
        rfl
    · intro hminus
      cases negative with
      | true =>
        rw [halone, evaluateExpression_minus_number lexing store hnumber]
        rfl
      | false => exact absurd hminus (Number.head?_ne_minus_of_isDigits hwhole _)

/-! ### Notation with an exponent -/

theorem refused_of_scientific (lexing : Lexing) (store : Store) (hname : isVariableName name = true)
    {exponent : Nat} (h : Number.Scientific exponent text) :
    Refused lexing store name text .invalidExpression := by
  obtain ⟨negative, content, hnumber, rfl⟩ := h.exists_eq
  rw [Decimal.intText_natCast]
  exact refused_name lexing store hname negative hnumber (isDigits_toDigits exponent)

theorem refused_of_scientific_neg (lexing : Lexing) (hname : isVariableName name = true)
    {exponent : Nat} (hpos : 0 < exponent) (h : Number.Scientific (-exponent) text)
    (hunbound : store.get? ['e'] = none) :
    Refused lexing store name text (.unknownVariable ['e']) := by
  obtain ⟨negative, content, hnumber, rfl⟩ := h.exists_eq
  rw [Decimal.intText_neg_natCast hpos]
  exact refused_difference lexing hname negative hnumber (isDigits_toDigits exponent) hunbound

/-- Without a sign, a text with a negative exponent is read as `e` less that exponent. -/
theorem run_evaluateLine_scientific_neg (lexing : Lexing) (hname : isVariableName name = true)
    {exponent : Nat} (hpos : 0 < exponent) (hexact : exponent < 2 ^ 53)
    (h : Number.Scientific (-exponent) text) (hminus : text.head? ≠ some '-') {bound : Float}
    (hbound : store.get? ['e'] = some bound) :
    (evaluateLine lexing text).run store = .ok (.value (bound - Float.ofNat exponent)) store ∧
    (evaluateLine lexing (name ++ " = ".toList ++ text)).run store =
      .ok (.binding name (bound - Float.ofNat exponent))
        (store.assign name (bound - Float.ofNat exponent)) := by
  obtain ⟨negative, content, hnumber, rfl⟩ := h.exists_eq
  rw [Decimal.intText_neg_natCast hpos] at hminus ⊢
  cases negative with
  | true => exact absurd rfl hminus
  | false =>
    have hdigits := isDigits_toDigits exponent
    have hevaluate : evaluateExpression lexing store
        (signText false ++ (content ++ 'e' :: '-' :: Nat.toDigits 10 exponent)) =
          .ok (.value (bound - Float.ofNat exponent)) :=
      evaluateExpression_difference lexing hnumber hdigits hbound (Number.read?_toDigits hexact)
    have hequals := (spaced_difference false content (Nat.toDigits 10 exponent)).equals_not_mem
      (isLexeme_of_mem_difference false hnumber hdigits)
    exact run_evaluateLine_of_evaluateExpression hname hequals
      (hasLetter_signed_e false content _) hevaluate

/-! ### All printed numbers -/

/-- What becomes of a printed number that is assigned to a name or typed as a line of its own. -/
structure TypedBack (lexing : Lexing) (store : Store) (name : Text) (value : Float) : Prop where
  covered : Number.Plain (Number.print value) ∨
    (∃ exponent : Nat, Number.Scientific exponent (Number.print value)) ∨
    (∃ exponent : Nat, 0 < exponent ∧ Number.Scientific (-exponent) (Number.print value)) ∨
    value.isInf = true ∨ value.isNaN = true
  plain : Number.Plain (Number.print value) →
    (evaluateLine lexing (name ++ " = ".toList ++ Number.print value)).run store =
      .ok (.binding name value) (store.assign name value) ∧
    ('-' ∉ Number.print value →
      (evaluateLine lexing (Number.print value)).run store = .ok (.value value) store) ∧
    ((Number.print value).head? = some '-' →
      (evaluateLine lexing (Number.print value)).run store = .error .invalidExpression store)
  large : ∀ exponent : Nat, Number.Scientific exponent (Number.print value) →
    Refused lexing store name (Number.print value) .invalidExpression
  small : ∀ exponent : Nat, 0 < exponent → Number.Scientific (-exponent) (Number.print value) →
    store.get? ['e'] = none →
      Refused lexing store name (Number.print value) (.unknownVariable ['e'])
  difference : ∀ exponent : Nat, 0 < exponent → Number.Scientific (-exponent) (Number.print value) →
    0 < value → ∀ bound, store.get? ['e'] = some bound →
      (evaluateLine lexing (Number.print value)).run store =
        .ok (.value (bound - Float.ofNat exponent)) store ∧
      (evaluateLine lexing (name ++ " = ".toList ++ Number.print value)).run store =
        .ok (.binding name (bound - Float.ofNat exponent))
          (store.assign name (bound - Float.ofNat exponent))
  infinite : value.isInf = true → store.get? "Infinity".toList = none →
    Refused lexing store name (Number.print value) (.unknownVariable "Infinity".toList)
  notANumber : value.isNaN = true → store.get? "NaN".toList = none →
    Refused lexing store name (Number.print value) (.unknownVariable "NaN".toList)

/-- In plain notation a printed number is read as itself, in the others its letters are names. -/
theorem typedBack (lexing : Lexing) (store : Store) (hname : isVariableName name = true)
    (value : Float) : TypedBack lexing store name value := by
  obtain ⟨hinf, hnan⟩ := Binary64.isInf_eq_and_isNaN_eq value
  constructor
  case covered =>
    rcases Nat.lt_trichotomy (Binary64.magnitude value) Binary64.infinity with hlt | heq | hgt
    · rcases Number.plain_or_scientific hlt with hplain | ⟨exponent, -, hscientific⟩
      · exact .inl hplain
      · rcases Int.lt_or_le exponent 0 with hneg | hnonneg
        · obtain ⟨n, rfl⟩ := Int.exists_eq_neg_ofNat hneg.le
          exact .inr (.inr (.inl ⟨n, by omega, hscientific⟩))
        · obtain ⟨n, rfl⟩ := Int.eq_ofNat_of_zero_le hnonneg
          exact .inr (.inl ⟨n, hscientific⟩)
    · exact .inr (.inr (.inr (.inl (hinf.trans (decide_eq_true heq)))))
    · exact .inr (.inr (.inr (.inr (hnan.trans (decide_eq_true hgt)))))
  case plain =>
    intro hplain
    exact run_evaluateLine_plain lexing store hname hplain (Number.read?_print value)
  case large => exact fun exponent => refused_of_scientific lexing store hname
  case small => exact fun exponent => refused_of_scientific_neg lexing hname
  case difference =>
    intro exponent hpos h hvalue bound hbound
    have hle := Number.le_of_scientific_print h
    exact run_evaluateLine_scientific_neg lexing hname hpos (by omega) h
      (Number.head?_print_of_pos hvalue) hbound
  case infinite =>
    intro htrue hunbound
    rw [Number.print_of_eq (of_decide_eq_true (hinf.symm.trans htrue))]
    exact refused_word lexing hname _ (by decide) hunbound
  case notANumber =>
    intro htrue hunbound
    rw [Number.print_of_gt (of_decide_eq_true (hnan.symm.trans htrue))]
    exact refused_word lexing hname false (by decide) hunbound

theorem typedBack_difference :
    (evaluateLine .strict "n = 1.5e-7".toList).run (Store.ofList [(['e'], 3)]) =
        .ok (.binding ['n'] (3 - Float.ofNat 7))
          ((Store.ofList [(['e'], 3)]).assign ['n'] (3 - Float.ofNat 7)) ∧
      (evaluateLine .strict "n = -2.5".toList).run (Store.ofList [(['e'], 3)]) =
        .ok (.binding ['n'] (-2.5)) ((Store.ofList [(['e'], 3)]).assign ['n'] (-2.5)) := by
  have hname : isVariableName ['n'] = true := rfl
  have hsmall : Number.print 1.5e-7 = "1.5e-7".toList := by decide +kernel
  have hplain : Number.print (-2.5) = "-2.5".toList := by decide +kernel
  have hbound : (Store.ofList [(['e'], 3)]).get? ['e'] = some 3 := by
    simp [Store.ofList, Store.get?_assign]
  have hone : IsDigits ['1'] := ⟨by simp, by simp⟩
  have htwo : IsDigits ['2'] := ⟨by simp, by simp⟩
  have hfive : IsDigits ['5'] := ⟨by simp, by simp⟩
  constructor
  · have hback := (typedBack .strict (Store.ofList [(['e'], 3)]) hname 1.5e-7).difference 7 (by decide)
    rw [hsmall] at hback
    exact (hback (.mk false hone hfive) (by decide +kernel) 3 hbound).2
  · have hback := (typedBack .strict (Store.ofList [(['e'], 3)]) hname (-2.5)).plain
    rw [hplain] at hback
    exact (hback (.mk true htwo hfive)).1

end LineCalculator
