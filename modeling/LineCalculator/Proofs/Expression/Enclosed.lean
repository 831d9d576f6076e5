import LineCalculator.Proofs.Expression.Groups

/-!
# Parentheses around an expression

Items whose parentheses close never reach an open parenthesis that waits below them: operators stop
at it as they stop at the end of the stack, and a closing parenthesis finds an open one above it. So
they do what they do in an empty yard, and a closing parenthesis behind them calls out what the end
of the expression would.
-/

namespace LineCalculator

namespace Yard

/-- The yard with an open parenthesis and more symbols waiting below all others. -/
def above (yard : Yard) (below : List Symbol) : Yard :=
  { yard with waiting := yard.waiting ++ .leftParen :: below }

variable {yard next : Yard} {item : Item} {items : List Item}

theorem addOperator_above (yard : Yard) (operator : Operator) (below : List Symbol) :
    (yard.above below).addOperator operator = (yard.addOperator operator).above below := by
  have hstays : yieldsTo operator.precedence .leftParen = false := by cases operator <;> rfl
  simp only [addOperator, above, emit, takeWhile_append_cons hstays, dropWhile_append_cons hstays,
    List.cons_append]

theorem close_above (h : yard.close.2 = true) (below : List Symbol) :
    (yard.above below).close = (yard.close.1.above below, true) := by
  have hfront := takeWhile_append_cons (p := fun symbol => symbol != Symbol.leftParen)
    (c := Symbol.leftParen) rfl yard.waiting below
  have hbehind := dropWhile_append_cons (p := fun symbol => symbol != Symbol.leftParen)
    (c := Symbol.leftParen) rfl yard.waiting below
  simp only [close, Bool.not_eq_true', List.isEmpty_eq_false_iff] at h
  simp only [close, above, emit, hfront, hbehind]
  rw [List.drop_append_of_le_length (List.length_pos_of_ne_nil h)]
  simp

theorem run_add_above (h : (add item).run yard = .ok () next) (below : List Symbol) :
    (add item).run (yard.above below) = .ok () (next.above below) := by
  cases item with
  | operand operand =>
    rw [run_add_operand] at h
    cases h
    rfl
  | symbol symbol =>
    cases symbol with
    | operator operator =>
      rw [run_add_operator] at h
      cases h
      rw [run_add_operator, addOperator_above]
    | leftParen =>
      rw [run_add_leftParen] at h
      cases h
      rfl
    | rightParen =>
      rw [run_add_rightParen] at h
      split at h
      next hclose =>
        cases h
        rw [run_add_rightParen, close_above hclose]
        rfl
      next => cases h

/-- Items that go in do the same above an open parenthesis. -/
theorem addAll_above (h : yard.addAll items = .ok () next) (below : List Symbol) :
    (yard.above below).addAll items = .ok () (next.above below) := by
  induction items generalizing yard with
  | nil =>
    cases h
    rfl
  | cons item items ih =>
    rw [addAll_cons] at h
    split at h
    next done after hadd =>
      rw [addAll_cons, run_add_above hadd]
      exact ih h
    next => cases h

/-- The parenthesis that closes a whole expression calls out all that waits. -/
theorem close_above_of_not_mem (h : .leftParen ∉ yard.waiting) :
    (yard.above []).close = ({ emitted := yard.emit yard.waiting }, true) := by
  have hinside : ∀ symbol ∈ yard.waiting, (symbol != Symbol.leftParen) = true := by
    intro symbol hmem
    rw [bne_iff_ne]
    rintro rfl
    exact h hmem
  have hparen : ∀ symbol ∈ [Symbol.leftParen].head?, (symbol != Symbol.leftParen) = false := by simp
  simp only [close, above, emit, takeWhile_append_of_head? hinside hparen,
    dropWhile_append_of_head? hinside hparen]
  rfl

end Yard

/-- Items with a pair of parentheses around them. -/
def encloseItems (items : List Item) : List Item :=
  .symbol .leftParen :: (items ++ [.symbol .rightParen])

theorem toPostfix_encloseItems {items reordered : List Item} (h : toPostfix items = .ok reordered) :
    toPostfix (encloseItems items) = .ok reordered := by
  obtain ⟨next, hadd, hopen, rfl⟩ := Yard.toPostfix_eq_ok h
  have hinside : Yard.addAll { waiting := [.leftParen] } items = .ok () (next.above []) :=
    Yard.addAll_above hadd []
  rw [Yard.toPostfix_eq, encloseItems, Yard.addAll_cons, Yard.run_add_leftParen]
  dsimp only
  rw [Yard.addAll_append_of_eq_ok hinside, Yard.addAll_singleton, Yard.run_add_rightParen,
    Yard.close_above_of_not_mem hopen]
  simp [Yard.finish, Yard.emit, pure, Except.pure]

/-- Parentheses around items whose own parentheses close change nothing. -/
theorem evaluateItems_encloseItems {items : List Item} (h : Balanced items) :
    evaluateItems (encloseItems items) = evaluateItems items := by
  obtain ⟨reordered, hreordered⟩ := (toPostfix_eq_ok_iff items).2 (closesAll_zero_iff.2 h)
  rw [evaluateItems, evaluateItems, hreordered, toPostfix_encloseItems hreordered]

end LineCalculator
