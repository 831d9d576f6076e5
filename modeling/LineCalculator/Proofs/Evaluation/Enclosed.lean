import LineCalculator.Proofs.Evaluation.Line
import LineCalculator.Proofs.Expression.Enclosed
import LineCalculator.Proofs.Line.Items
import LineCalculator.Proofs.SignRun.Runs
import LineCalculator.Proofs.Token.Ends

/-!
# Parentheses around a line

A pair of parentheses around a text stays around everything that is made of it: the folded text, its
tokens and its items, and a failure on the way is the same one. What has to be known about the text
is that its own parentheses close, and since no stage drops, adds or moves a parenthesis, those of
the items close too.
-/

namespace LineCalculator

/-- No closing parenthesis comes without an open one in front, and none stays open. -/
structure ParensClose (text : Text) : Prop where
  prefixes : ∀ front, front <+: text → front.count ')' ≤ front.count '('
  totals : text.count '(' = text.count ')'

instance (text : Text) : Decidable (ParensClose text) :=
  decidable_of_iff
    ((∀ front ∈ text.inits, front.count ')' ≤ front.count '(') ∧ text.count '(' = text.count ')')
    ⟨fun h => ⟨fun front hfront => h.1 front ((List.mem_inits front text).2 hfront), h.2⟩,
      fun h => ⟨fun front hfront => h.prefixes front ((List.mem_inits front text).1 hfront), h.totals⟩⟩

/-- A text with pairs of parentheses around it. -/
def enclose : Nat → Text → Text
  | 0, text => text
  | count + 1, text => '(' :: (enclose count text ++ [')'])

def isParen (c : Char) : Bool :=
  c == '(' || c == ')'

/-- The parenthesis that an item is. -/
def Item.paren? : Item → Option Char
  | .symbol .leftParen => some '('
  | .symbol .rightParen => some ')'
  | _ => none

variable {lexing : Lexing} {store : Store} {text : Text} {tokens : List Token} {items : List Item}

theorem not_isParen_iff {c : Char} : isParen c = false ↔ c ≠ '(' ∧ c ≠ ')' := by
  simp [isParen]

/-! ### The parentheses of a text and of its items -/

theorem not_isParen_of_isSign {c : Char} (h : isSign c = true) : isParen c = false := by
  rcases isSign_iff.1 h with rfl | rfl <;> rfl

theorem not_isParen_of_not_startsToken {c : Char} (h : startsToken c = false) : isParen c = false := by
  rw [not_isParen_iff]
  constructor <;> rintro rfl <;> cases h

theorem not_isParen_of_isNamePart {c : Char} (h : isNamePart c = true) : isParen c = false := by
  rw [not_isParen_iff]
  constructor <;> rintro rfl <;> cases h

theorem filter_isParen_of_isNamePart (h : ∀ c ∈ text, isNamePart c = true) :
    text.filter isParen = [] :=
  filter_eq_nil_of_forall (fun _ => not_isParen_of_isNamePart) h

theorem filter_isParen_of_isNumber (h : IsNumber text) : text.filter isParen = [] := by
  have hdigits : ∀ {digits : Text}, IsDigits digits → digits.filter isParen = [] := fun hdigits =>
    filter_isParen_of_isNamePart fun c hc => by simp [isNamePart, Char.isAlphanum, hdigits.2 c hc]
  cases h with
  | whole h => exact hdigits h
  | decimal h hfraction =>
    have hpoint : isParen '.' = false := rfl
    rw [List.filter_append, List.filter_cons, hpoint, hdigits h, hdigits hfraction]
    rfl

/-- A token holds the parenthesis that its item is and no other. -/
theorem Token.Becomes.filter_isParen {token : Token} {item : Item} (h : token.Becomes store item) :
    token.content.filter isParen = item.paren?.toList := by
  cases h with
  | number h => exact filter_isParen_of_isNumber h
  | reference h =>
    exact filter_isParen_of_isNamePart (isIdentifier_of_isVariableName h).2
  | operator operator => cases operator <;> rfl
  | leftParen => rfl
  | rightParen => rfl

theorem filter_isParen_of_becomes (h : List.Forall₂ (Token.Becomes store) tokens items) :
    tokens.flatMap (fun token => token.content.filter isParen) = items.filterMap Item.paren? := by
  induction h with
  | nil => rfl
  | @cons token item tokens items hbecomes hrest ih =>
    rw [List.flatMap_cons, hbecomes.filter_isParen, ih, List.filterMap_cons]
    cases item.paren? <;> rfl

/-- No stage drops, adds or moves a parenthesis. -/
theorem filterMap_paren?_of_tokenize (htokens : tokenize lexing text = .ok tokens)
    (hitems : Item.ofTokens store tokens = .ok items) :
    items.filterMap Item.paren? = text.filter isParen := by
  have hlexemes : ∀ token ∈ tokens, IsLexeme token := fun _ => isLexeme_of_mem_tokenize htokens
  obtain ⟨folded, hfolded, hlex⟩ := bind_eq_ok_iff.1 htokens
  obtain ⟨-, rfl⟩ := foldSigns_eq_ok_iff.1 hfolded
  have hdrops : ∀ c, lexing.drops c = true → isParen c = false := fun c hc =>
    not_isParen_of_not_startsToken (Lexing.not_startsToken_of_drops hc)
  have hblank : ∀ c, isBlank c = true → isParen c = false := fun c hc =>
    not_isParen_of_not_startsToken (not_startsToken_of_isBlank hc)
  calc items.filterMap Item.paren?
      = tokens.flatMap fun token => token.content.filter isParen :=
        (filter_isParen_of_becomes (Item.forall₂_becomes_of_ofTokens hlexemes hitems)).symm
    _ = (trim (rewriteSigns text)).filter isParen := ((cut_of_lex hlex).filter_eq hdrops).symm
    _ = (rewriteSigns text).filter isParen := filter_trim hblank _
    _ = text.filter isParen :=
        (runsReplaced_rewriteSigns text).filter_eq fun c hc => not_isParen_of_isSign hc

theorem ParensClose.filter (h : ParensClose text) : ParensClose (text.filter isParen) := by
  have hcount : ∀ {c : Char}, isParen c = true → ∀ front : Text,
      (front.filter isParen).count c = front.count c := fun hparen front => List.count_filter hparen
  constructor
  · intro front hfront
    obtain ⟨whole, hwhole, rfl⟩ := List.prefix_filter_iff.1 hfront
    rw [hcount rfl, hcount rfl]
    exact h.prefixes whole hwhole
  · rw [hcount rfl, hcount rfl]
    exact h.totals

theorem Item.count_filterMap_paren? (items : List Item) :
    (items.filterMap paren?).count '(' = items.count (.symbol .leftParen) ∧
      (items.filterMap paren?).count ')' = items.count (.symbol .rightParen) := by
  induction items with
  | nil => exact ⟨rfl, rfl⟩
  | cons item items ih =>
    obtain ⟨hleft, hright⟩ := ih
    cases item with
    | operand operand => simp [List.filterMap_cons, paren?, hleft, hright]
    | symbol symbol => cases symbol <;> simp [List.filterMap_cons, paren?, hleft, hright]

theorem ParensClose.balanced (h : ParensClose (items.filterMap Item.paren?)) : Balanced items := by
  constructor
  · intro front hfront
    obtain ⟨hleft, hright⟩ := Item.count_filterMap_paren? front
    rw [← hleft, ← hright]
    exact h.prefixes _ (hfront.filterMap Item.paren?)
  · obtain ⟨hleft, hright⟩ := Item.count_filterMap_paren? items
    rw [← hleft, ← hright]
    exact h.totals

theorem ParensClose.balanced_of_tokenize (h : ParensClose text)
    (htokens : tokenize lexing text = .ok tokens)
    (hitems : Item.ofTokens store tokens = .ok items) : Balanced items := by
  apply ParensClose.balanced
  rw [filterMap_paren?_of_tokenize htokens hitems]
  exact h.filter

/-! ### One pair around a text -/

theorem foldSigns_enclose (text : Text) :
    foldSigns (enclose 1 text) =
      if hasRepeatedProduct text then .error .invalidExpression
      else .ok (enclose 1 (rewriteSigns text)) := by
  have hproduct : hasRepeatedProduct (enclose 1 text) = hasRepeatedProduct text := by
    rw [enclose, enclose, hasRepeatedProduct_cons (by decide) (by decide),
      hasRepeatedProduct_append (by decide) (by decide)]
    exact Bool.or_false _
  have hrewrite : rewriteSigns (enclose 1 text) = enclose 1 (rewriteSigns text) := by
    rw [enclose, enclose, rewriteSigns_cons (by decide), rewriteSigns_append (by decide) (by decide)]
    rfl
  have htrim : trim (enclose 1 (rewriteSigns text)) = enclose 1 (rewriteSigns text) := by
    apply trim_eq_self
    · rintro c ⟨rfl⟩
      decide
    · intro c hc
      rw [enclose, ← List.cons_append, List.getLast?_concat] at hc
      cases hc
      decide
  rw [foldSigns, hproduct, hrewrite, htrim]
  rfl

def encloseTokens (tokens : List Token) : List Token :=
  ⟨['('], .punctuation⟩ :: (tokens ++ [⟨[')'], .punctuation⟩])

theorem lex_enclose (lexing : Lexing) (text : Text) :
    lex lexing (enclose 1 text) = do return encloseTokens (← lex lexing text) := by
  rw [enclose, enclose, lex_leftParen_cons, lex_append_rightParen]
  cases lex lexing text <;> rfl

theorem tokenize_enclose (lexing : Lexing) (text : Text) :
    tokenize lexing (enclose 1 text) = do return encloseTokens (← tokenize lexing text) := by
  rw [tokenize, tokenize, foldSigns_enclose, foldSigns]
  split
  · rfl
  · exact (lex_enclose lexing (rewriteSigns text)).trans (by rw [← lex_trim]; rfl)

theorem Item.ofTokens_encloseTokens (store : Store) (tokens : List Token) :
    ofTokens store (encloseTokens tokens) = do return encloseItems (← ofTokens store tokens) := by
  have hleft : ofToken store ⟨['('], .punctuation⟩ = .ok (.symbol .leftParen) :=
    ofSign_sign .leftParen
  have hright : ofTokens store [⟨[')'], .punctuation⟩] = .ok [.symbol .rightParen] :=
    ofTokens_singleton (ofSign_sign .rightParen)
  rw [encloseTokens, ofTokens_cons, hleft, ofTokens, List.mapM_append, ← ofTokens, ← ofTokens, hright]
  cases ofTokens store tokens <;> rfl

theorem evaluateExpression_enclose_one (h : ParensClose text) :
    evaluateExpression lexing store (enclose 1 text) = evaluateExpression lexing store text := by
  rw [evaluateExpression, evaluateExpression, tokenize_enclose]
  cases htokens : tokenize lexing text with
  | error failure => rfl
  | ok tokens =>
    simp only [bind, Except.bind, pure, Except.pure, Item.ofTokens_encloseTokens]
    cases hitems : Item.ofTokens store tokens with
    | error failure => rfl
    | ok items => exact evaluateItems_encloseItems (h.balanced_of_tokenize htokens hitems)

/-! ### Any number of pairs -/

theorem ParensClose.enclose_one (h : ParensClose text) : ParensClose (enclose 1 text) := by
  constructor
  · intro front hfront
    rcases List.prefix_cons_iff.1 hfront with rfl | ⟨rest, rfl, hrest⟩
    · exact Nat.le_refl 0
    · rcases List.prefix_concat_iff.1 hrest with rfl | hrest
      · have htotals := h.totals
        simp [enclose]
        omega
      · have hle := h.prefixes rest hrest
        simp
        omega
  · have htotals := h.totals
    simp [enclose]
    omega

theorem ParensClose.enclose (h : ParensClose text) (count : Nat) :
    ParensClose (enclose count text) := by
  induction count with
  | zero => exact h
  | succ count ih => exact ih.enclose_one

theorem equals_not_mem_enclose (h : '=' ∉ text) (count : Nat) : '=' ∉ enclose count text := by
  induction count with
  | zero => exact h
  | succ count ih => simp [enclose, ih]

theorem evaluateExpression_enclose (h : ParensClose text) (count : Nat) :
    evaluateExpression lexing store (enclose count text) = evaluateExpression lexing store text := by
  induction count with
  | zero => rfl
  | succ count ih => exact (evaluateExpression_enclose_one (h.enclose count)).trans ih

/-- Pairs of parentheses around a text whose own parentheses close leave its value as it is, and its failure too. -/
theorem run_evaluateLine_enclose (lexing : Lexing) (store : Store) (count : Nat) {text : Text}
    (hequals : '=' ∉ text) (hclose : ParensClose text) :
    (∃ value, (evaluateLine lexing text).run store = .ok (.value value) store ∧
        (evaluateLine lexing (enclose count text)).run store = .ok (.value value) store) ∨
      ∃ failure, (evaluateLine lexing text).run store = .error failure store ∧
        (evaluateLine lexing (enclose count text)).run store = .error failure store := by
  have hplain := run_evaluateLine_of_not_mem lexing store hequals
  have henclosed := run_evaluateLine_of_not_mem lexing store (equals_not_mem_enclose hequals count)
  rw [evaluateExpression_enclose hclose] at henclosed
  cases hevaluated : evaluateExpression lexing store text with
  | error failure =>
    rw [hevaluated] at hplain henclosed
    exact .inr ⟨failure, hplain, henclosed⟩
  | ok evaluation =>
    obtain ⟨value, rfl⟩ := exists_value_of_evaluateExpression hevaluated
    rw [hevaluated] at hplain henclosed
    exact .inl ⟨value, hplain, henclosed⟩

theorem run_evaluateLine_enclose_unlexed :
    '=' ∉ "2 $ (3)".toList ∧ ParensClose "2 $ (3)".toList ∧
      (evaluateLine .strict "2 $ (3)".toList).run ∅ = .error (.invalidToken ['$']) ∅ ∧
      (evaluateLine .strict "((2 $ (3)))".toList).run ∅ = .error (.invalidToken ['$']) ∅ := by
  have hequals : '=' ∉ "2 $ (3)".toList := by decide
  have hclose : ParensClose "2 $ (3)".toList := by decide
  have hrest : lex .strict " $ (3)".toList = .error (.invalidToken ['$']) := by
    rw [lex_eq]
    rfl
  have hlex : lex .strict "2 $ (3)".toList = .error (.invalidToken ['$']) := by
    rw [lex_eq]
    exact congrArg (fun tokens => do return Token.mk ['2'] .number :: (← tokens)) hrest
  have hplain : (evaluateLine .strict "2 $ (3)".toList).run ∅ = .error (.invalidToken ['$']) ∅ := by
    rw [run_evaluateLine_of_not_mem .strict ∅ hequals, evaluateExpression, tokenize]
    exact congrArg (fun tokens => resultAt ∅ (do evaluateItems (← Item.ofTokens ∅ (← tokens)))) hlex
  refine ⟨hequals, hclose, hplain, ?_⟩
  rcases run_evaluateLine_enclose .strict ∅ 2 hequals hclose with
    ⟨value, hvalue, -⟩ | ⟨failure, hfailure, henclosed⟩
  · rw [hplain] at hvalue
    cases hvalue
  · rw [hplain] at hfailure
    cases hfailure
    exact henclosed

end LineCalculator
