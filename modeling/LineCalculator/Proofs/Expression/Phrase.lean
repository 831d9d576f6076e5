import LineCalculator.Proofs.Evaluation.Line
import LineCalculator.Proofs.Number.Literal
import LineCalculator.Proofs.Token.Spacing

/-!
# Arithmetic phrases

The grammar of arithmetic with its precedences built in. A phrase of rank 1 is a sum, of rank 2 a
product, of rank 3 a power and of rank 4 an atom, and an operator takes a phrase of its own rank on
its left and a closer one on its right, so every phrase has one reading and all of them group to the
left. A phrase written out with any blanks in it evaluates to the value that this reading gives it:
its tokens touch only where nothing is glued or folded, its items are read by the yard as one value,
and its value is that value by recursion on the phrase.
-/

namespace LineCalculator

/-! ### The grammar -/

inductive Phrase : Nat → Type
  | number (content : Text) (h : IsNumber content) : Phrase 4
  | name (content : Text) (h : isVariableName content = true) : Phrase 4
  | group (inner : Phrase 1) : Phrase 4
  | lift {rank : Nat} (closer : Phrase (rank + 1)) : Phrase rank
  | apply (operator : Operator) (left : Phrase operator.precedence)
      (right : Phrase (operator.precedence + 1)) : Phrase operator.precedence

namespace Phrase

def tokens : {rank : Nat} → Phrase rank → List Token
  | _, number content _ => [⟨content, .number⟩]
  | _, name content _ => [⟨content, .identifier⟩]
  | _, group inner => ⟨['('], .punctuation⟩ :: inner.tokens ++ [⟨[')'], .punctuation⟩]
  | _, lift closer => closer.tokens
  | _, apply operator left right => left.tokens ++ ⟨[operator.sign], .operator⟩ :: right.tokens

def names : {rank : Nat} → Phrase rank → List Text
  | _, number _ _ => []
  | _, name content _ => [content]
  | _, group inner => inner.names
  | _, lift closer => closer.names
  | _, apply _ left right => left.names ++ right.names

/-- The value of a phrase, if all of its names are bound. -/
def value? (store : Store) : {rank : Nat} → Phrase rank → Option Float
  | _, number content _ => Number.read? content
  | _, name content _ => store.get? content
  | _, group inner => inner.value? store
  | _, lift closer => closer.value? store
  | _, apply operator left right => do
    return operator.apply (← left.value? store) (← right.value? store)

/-! ### How phrases are written -/

/-- Tokens that may stand together without blanks and have no operator at their ends. -/
structure Tight (tokens : List Token) : Prop where
  chain : tokens.IsChain Token.MayTouch
  head : ∃ token ∈ tokens.head?, token.kind ≠ .operator
  last : ∃ token ∈ tokens.getLast?, token.kind ≠ .operator

theorem isLexeme {rank : Nat} (phrase : Phrase rank) : ∀ token ∈ phrase.tokens, IsLexeme token := by
  induction phrase with
  | number content h => simpa [tokens] using IsLexeme.number h
  | name content h => simpa [tokens] using IsLexeme.identifier (isIdentifier_of_isVariableName h)
  | group inner ih =>
    intro token hmem
    simp only [tokens, List.cons_append, List.mem_cons, List.mem_append, List.not_mem_nil,
      or_false] at hmem
    rcases hmem with rfl | hmem | rfl
    · exact .punctuation (by decide)
    · exact ih token hmem
    · exact .punctuation (by decide)
  | lift closer ih => exact ih
  | apply operator left right ihleft ihright =>
    intro token hmem
    rw [tokens, List.mem_append, List.mem_cons] at hmem
    rcases hmem with hmem | rfl | hmem
    · exact ihleft token hmem
    · exact .operator (by cases operator <;> decide)
    · exact ihright token hmem

theorem tight {rank : Nat} (phrase : Phrase rank) : Tight phrase.tokens := by
  induction phrase with
  | number content h => exact ⟨.singleton _, ⟨_, rfl, by simp⟩, ⟨_, rfl, by simp⟩⟩
  | name content h => exact ⟨.singleton _, ⟨_, rfl, by simp⟩, ⟨_, rfl, by simp⟩⟩
  | group inner ih =>
    obtain ⟨hchain, ⟨first, hfirst, hhead⟩, ⟨final, hfinal, hlast⟩⟩ := ih
    refine ⟨?_, ⟨_, rfl, by decide⟩, ⟨_, List.getLast?_concat, by decide⟩⟩
    rw [tokens, List.cons_append, List.isChain_cons, List.isChain_append]
    refine ⟨?_, hchain, .singleton _, ?_⟩
    · intro next hnext
      exact ⟨.inl rfl, fun hboth => absurd hboth.1 (by decide)⟩
    · intro token htoken next hnext
      obtain rfl : ⟨[')'], .punctuation⟩ = next := by simpa using hnext
      exact ⟨.inr rfl, fun hboth => absurd hboth.2 (by decide)⟩
  | lift closer ih => exact ih
  | apply operator left right ihleft ihright =>
    obtain ⟨hchainleft, ⟨first, hfirst, hhead⟩, ⟨between, hbetween, hbefore⟩⟩ := ihleft
    obtain ⟨hchainright, ⟨behind, hbehind, hafter⟩, ⟨final, hfinal, hlast⟩⟩ := ihright
    refine ⟨?_, ⟨first, ?_, hhead⟩, ⟨final, ?_, hlast⟩⟩
    · rw [tokens, List.isChain_append, List.isChain_cons]
      refine ⟨hchainleft, ⟨?_, hchainright⟩, ?_⟩
      · intro next hnext
        obtain rfl := Option.mem_unique hbehind hnext
        exact ⟨.inl rfl, fun hboth => hafter hboth.2⟩
      · intro token htoken next hnext
        obtain rfl := Option.mem_unique hbetween htoken
        obtain rfl : ⟨[operator.sign], .operator⟩ = next := by simpa using hnext
        exact ⟨.inr rfl, fun hboth => hbefore hboth.1⟩
    · rw [tokens, List.head?_append, Option.mem_def.1 hfirst]
      rfl
    · rw [tokens, List.getLast?_append, List.getLast?_cons, Option.mem_def.1 hfinal]
      rfl

/-! ### What phrases are read as -/

theorem exists_reads {rank : Nat} (phrase : Phrase rank) {store : Store}
    (hbound : ∀ name ∈ phrase.names, (store.get? name).isSome = true) :
    ∃ items value, Item.ofTokens store phrase.tokens = .ok items ∧ phrase.value? store = some value ∧
      Yard.Reads rank items value := by
  induction phrase with
  | number content h =>
    obtain ⟨value, hvalue⟩ := Number.exists_read?_of_isNumber h
    exact ⟨[.operand (.number value)], value, Item.ofTokens_singleton (Item.ofToken_number store hvalue),
      hvalue, Yard.reads_operand rfl 4⟩
  | name content h =>
    obtain ⟨value, hvalue⟩ := Option.isSome_iff_exists.1 (hbound content List.mem_cons_self)
    refine ⟨[.operand (.reference content value)], value, ?_, hvalue, Yard.reads_operand rfl 4⟩
    exact Item.ofTokens_singleton (Item.ofIdentifier_of_get?_eq_some h hvalue)
  | group inner ih =>
    obtain ⟨items, value, hitems, hvalue, hreads⟩ := ih hbound
    refine ⟨.symbol .leftParen :: items ++ [.symbol .rightParen], value, ?_, hvalue, hreads.group 4⟩
    have hopen : Item.ofTokens store [⟨['('], .punctuation⟩] = .ok [.symbol .leftParen] :=
      Item.ofTokens_singleton (Item.ofSign_sign .leftParen)
    have hclose : Item.ofTokens store [⟨[')'], .punctuation⟩] = .ok [.symbol .rightParen] :=
      Item.ofTokens_singleton (Item.ofSign_sign .rightParen)
    exact Item.ofTokens_append (Item.ofTokens_append hopen hitems) hclose
  | lift closer ih =>
    obtain ⟨items, value, hitems, hvalue, hreads⟩ := ih hbound
    exact ⟨items, value, hitems, hvalue, hreads.lift⟩
  | apply operator left right ihleft ihright =>
    obtain ⟨first, leftValue, hfirst, hleft, hreadsleft⟩ := ihleft fun name hmem =>
      hbound name (List.mem_append_left _ hmem)
    obtain ⟨second, rightValue, hsecond, hright, hreadsright⟩ := ihright fun name hmem =>
      hbound name (List.mem_append_right _ hmem)
    refine ⟨first ++ .symbol (.operator operator) :: second, operator.apply leftValue rightValue,
      ?_, ?_, hreadsleft.apply hreadsright⟩
    · have hsign : Item.ofTokens store [⟨[operator.sign], .operator⟩] =
          .ok [.symbol (.operator operator)] :=
        Item.ofTokens_singleton (Item.ofSign_sign (.operator operator))
      exact Item.ofTokens_append hfirst (Item.ofTokens_append hsign hsecond)
    · rw [value?, hleft, hright]
      rfl

/-! ### What phrases evaluate to -/

/-- A text is a phrase's tokens with blanks, or nothing, between any two of them. -/
def WrittenAs {rank : Nat} (phrase : Phrase rank) (text : Text) : Prop :=
  Spaced (fun _ _ => True) phrase.tokens text

variable {rank : Nat} {phrase : Phrase rank} {text left right : Text}

theorem WrittenAs.tokenize_eq (h : phrase.WrittenAs text) (lexing : Lexing)
    (hleft : ∀ c ∈ left, isBlank c = true)
    (hright : ∀ c ∈ right, isBlank c = true) :
    tokenize lexing (left ++ text ++ right) = .ok phrase.tokens :=
  tokenize_of_spaced lexing ((Spaced.of_isChain h phrase.tight.chain).partsFrom phrase.isLexeme)
    phrase.isLexeme hleft hright

theorem WrittenAs.equals_not_mem (h : phrase.WrittenAs text) (hleft : ∀ c ∈ left, isBlank c = true)
    (hright : ∀ c ∈ right, isBlank c = true) : '=' ∉ left ++ text ++ right := by
  have hequals : isBlank '=' = false := by decide
  rw [mem_append_blanks_iff hequals hleft hright]
  intro hmem
  obtain ⟨token, htoken, hin⟩ := Spaced.exists_mem_content h hmem hequals
  exact (phrase.isLexeme token htoken).equals_not_mem hin

theorem WrittenAs.evaluateExpression_eq {phrase : Phrase 1} (h : phrase.WrittenAs text)
    (lexing : Lexing)
    (hleft : ∀ c ∈ left, isBlank c = true) (hright : ∀ c ∈ right, isBlank c = true) {store : Store}
    (hbound : ∀ name ∈ phrase.names, (store.get? name).isSome = true) :
    ∃ value, phrase.value? store = some value ∧
      evaluateExpression lexing store (left ++ text ++ right) = .ok (.value value) := by
  obtain ⟨items, value, hitems, hvalue, hreads⟩ := phrase.exists_reads hbound
  refine ⟨value, hvalue, ?_⟩
  rw [evaluateExpression, h.tokenize_eq lexing hleft hright]
  refine bind_eq_ok_iff.2 ⟨phrase.tokens, rfl, bind_eq_ok_iff.2 ⟨items, hitems, ?_⟩⟩
  exact hreads.evaluateItems

theorem evaluateExpression_of_get?_eq_some {name : Text} (lexing : Lexing)
    (h : isVariableName name = true)
    {store : Store} {value : Float} (hvalue : store.get? name = some value) :
    evaluateExpression lexing store name = .ok (.value value) := by
  have hwritten : (.lift (.lift (.lift (.name name h))) : Phrase 1).WrittenAs name := .single _
  have hbound : ∀ other ∈ [name], (store.get? other).isSome = true := by simp [hvalue]
  obtain ⟨found, hfound, hevaluate⟩ := hwritten.evaluateExpression_eq lexing blank_nil blank_nil hbound
  rw [List.nil_append, List.append_nil] at hevaluate
  simp only [value?, hvalue] at hfound
  cases hfound
  exact hevaluate

/-- A phrase whose names are bound answers its value in either lexing and changes no variable. -/
theorem run_evaluateLine_of_writtenAs {phrase : Phrase 1} (h : phrase.WrittenAs text)
    (lexing : Lexing)
    (hleft : ∀ c ∈ left, isBlank c = true) (hright : ∀ c ∈ right, isBlank c = true) {store : Store}
    (hbound : ∀ name ∈ phrase.names, (store.get? name).isSome = true) :
    ∃ value, phrase.value? store = some value ∧
      (evaluateLine lexing (left ++ text ++ right)).run store = .ok (.value value) store := by
  obtain ⟨value, hvalue, hevaluate⟩ := h.evaluateExpression_eq lexing hleft hright hbound
  refine ⟨value, hvalue, ?_⟩
  rw [run_evaluateLine_of_not_mem lexing store (h.equals_not_mem hleft hright), hevaluate]
  rfl

theorem run_evaluateLine_repeated_power :
    (evaluateLine .strict " x ^ y^x".toList).run (Store.ofList [(['x'], 2), (['y'], 3)]) =
      .ok (.value (Operator.exponentiation.apply (Operator.exponentiation.apply 2 3) 2))
        (Store.ofList [(['x'], 2), (['y'], 3)]) := by
  have hwritten : (.lift (.lift (.apply .exponentiation (.apply .exponentiation
      (.lift (.name ['x'] rfl)) (.name ['y'] rfl)) (.name ['x'] rfl))) : Phrase 1).WrittenAs "x ^ y^x".toList :=
    .cons blank_space (by simp) (.cons blank_space (by simp)
      (.cons blank_nil (by simp) (.cons blank_nil (by simp) (.single _))))
  have hx : (Store.ofList [(['x'], 2), (['y'], 3)]).get? ['x'] = some 2 := by
    simp [Store.ofList, Store.get?_assign]
  have hy : (Store.ofList [(['x'], 2), (['y'], 3)]).get? ['y'] = some 3 := by
    simp [Store.ofList, Store.get?_assign]
  have hbound : ∀ name ∈ [['x'], ['y'], ['x']],
      ((Store.ofList [(['x'], 2), (['y'], 3)]).get? name).isSome = true := by
    simp [hx, hy]
  obtain ⟨value, hvalue, hrun⟩ :=
    run_evaluateLine_of_writtenAs hwritten .strict blank_space blank_nil hbound
  simp only [value?, hx, hy] at hvalue
  cases hvalue
  exact hrun

end Phrase

end LineCalculator
