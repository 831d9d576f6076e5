import LineCalculator.Expression.Postfix
import LineCalculator.Proofs.Evaluation.Machine
import LineCalculator.Text.Split

/-!
# Runs of the yard

What the items of a whole expression do to a yard. If all that waits binds looser than the
expression does, nothing of it moves, and the expression leaves the yard except for operators that
are on top of the stack now. What has left followed by these operators pushes the expression's
value, so whoever calls the operators out next completes it.
-/

namespace LineCalculator

namespace Yard

/-- Takes items in up to the first failure. -/
def addAll (yard : Yard) (items : List Item) : EStateM.Result Failure Yard Unit :=
  (items.forM add).run yard

theorem toPostfix_eq (items : List Item) :
    toPostfix items =
      match addAll {} items with
      | .ok _ yard => yard.finish
      | .error failure _ => throw failure :=
  rfl

/-- All items went in, no open parenthesis waited at the end, and what waited has left. -/
theorem toPostfix_eq_ok {items reordered : List Item} (h : toPostfix items = .ok reordered) :
    ∃ next, addAll {} items = .ok () next ∧ Symbol.leftParen ∉ next.waiting ∧
      reordered = (next.emit next.waiting).toList := by
  rw [toPostfix_eq] at h
  split at h
  next done next hadd =>
    rw [finish] at h
    split at h
    next => cases h
    next hopen =>
      cases h
      exact ⟨next, hadd, hopen, rfl⟩
  next => cases h

theorem addAll_cons (yard : Yard) (item : Item) (items : List Item) :
    yard.addAll (item :: items) =
      match (add item).run yard with
      | .ok _ next => next.addAll items
      | .error failure last => .error failure last := by
  simp only [addAll, List.forM_eq_forM, List.forM_cons, EStateM.run_bind]
  cases (add item).run yard <;> rfl

theorem addAll_append (yard : Yard) (left right : List Item) :
    yard.addAll (left ++ right) =
      match yard.addAll left with
      | .ok _ next => next.addAll right
      | .error failure last => .error failure last := by
  induction left generalizing yard with
  | nil => rfl
  | cons item items ih =>
    rw [List.cons_append, addAll_cons, addAll_cons]
    cases (add item).run yard with
    | ok done next => exact ih next
    | error failure last => rfl

theorem addAll_append_of_eq_ok {yard next : Yard} {left : List Item}
    (h : yard.addAll left = .ok () next)
    (right : List Item) : yard.addAll (left ++ right) = next.addAll right := by
  rw [addAll_append, h]

theorem addAll_singleton (yard : Yard) (item : Item) :
    yard.addAll [item] = (add item).run yard := by
  rw [addAll_cons]
  cases (add item).run yard <;> rfl

/-! ### Waiting operators are called out -/

def ofOperators (operators : List Operator) : List Symbol :=
  operators.map .operator

theorem toList_emit_ofOperators (yard : Yard) (operators : List Operator) :
    (yard.emit (ofOperators operators)).toList = yard.emitted.toList ++ Item.ofOperators operators := by
  simp [emit, ofOperators, Item.ofOperators, Function.comp_def]

/-- An operator calls out those on top that bind as close as itself. -/
theorem addOperator_of_waiting {yard : Yard} {operator : Operator} {operators : List Operator}
    {below : List Symbol}
    (hwaiting : yard.waiting = ofOperators operators ++ below)
    (hcloser : ∀ o ∈ operators, operator.precedence ≤ o.precedence)
    (hbelow : ∀ symbol ∈ below.head?, symbol.precedence < operator.precedence) :
    (yard.addOperator operator).emitted.toList = yard.emitted.toList ++ Item.ofOperators operators ∧
      (yard.addOperator operator).waiting = .operator operator :: below := by
  have hyields : ∀ symbol ∈ ofOperators operators, yieldsTo operator.precedence symbol = true := by
    intro symbol hmem
    obtain ⟨o, ho, rfl⟩ := List.mem_map.1 hmem
    exact decide_eq_true (hcloser o ho)
  have hstays : ∀ symbol ∈ below.head?, yieldsTo operator.precedence symbol = false := by
    intro symbol hmem
    simpa [yieldsTo] using hbelow symbol hmem
  simp only [addOperator, hwaiting, takeWhile_append_of_head? hyields hstays,
    dropWhile_append_of_head? hyields hstays, toList_emit_ofOperators]
  trivial

theorem close_of_waiting {yard : Yard} {operators : List Operator} {below : List Symbol}
    (hwaiting : yard.waiting = ofOperators operators ++ .leftParen :: below) :
    yard.close.1.emitted.toList = yard.emitted.toList ++ Item.ofOperators operators ∧
      yard.close.1.waiting = below ∧ yard.close.2 = true := by
  have hinside : ∀ symbol ∈ ofOperators operators, (symbol != Symbol.leftParen) = true := by
    intro symbol hmem
    obtain ⟨o, -, rfl⟩ := List.mem_map.1 hmem
    simp
  have hparen : ∀ symbol ∈ (Symbol.leftParen :: below).head?,
      (symbol != Symbol.leftParen) = false := by simp
  simp only [close, hwaiting, takeWhile_append_of_head? hinside hparen,
    dropWhile_append_of_head? hinside hparen, toList_emit_ofOperators]
  exact ⟨trivial, rfl, rfl⟩

/-! ### Expressions -/

/-- Behind symbols that bind looser than `rank`, the items leave the yard, but for operators that bind as close as `rank`, so that all together push one value. -/
def Reads (rank : Nat) (items : List Item) (value : Float) : Prop :=
  ∀ yard : Yard, (∀ symbol ∈ yard.waiting.head?, symbol.precedence < rank) →
    ∃ (next : Yard) (out : List Item) (operators : List Operator),
      yard.addAll items = .ok () next ∧ next.emitted.toList = yard.emitted.toList ++ out ∧
        next.waiting = ofOperators operators ++ yard.waiting ∧
        (∀ operator ∈ operators, rank ≤ operator.precedence) ∧
        Machine.Pushes value (out ++ Item.ofOperators operators)

theorem reads_operand {operand : Operand} (h : (Item.operand operand).isBinding = false)
    (rank : Nat) :
    Reads rank [.operand operand] operand.value := by
  intro yard _
  refine ⟨{ yard with emitted := yard.emitted.push (.operand operand) }, [.operand operand], [],
    ?_, ?_, rfl, by simp, ?_⟩
  · rw [addAll_singleton, run_add_operand]
  · exact Array.toList_push
  · exact Machine.pushes_operand h

theorem Reads.lift {rank : Nat} {items : List Item} {value : Float}
    (h : Reads (rank + 1) items value) :
    Reads rank items value := by
  intro yard hlooser
  obtain ⟨next, out, operators, hadd, hemitted, hwaiting, hcloser, hpushes⟩ :=
    h yard fun symbol hmem => Nat.lt_succ_of_lt (hlooser symbol hmem)
  exact ⟨next, out, operators, hadd, hemitted, hwaiting,
    fun o ho => Nat.le_of_succ_le (hcloser o ho), hpushes⟩

theorem Reads.group {items : List Item} {value : Float} (h : Reads 1 items value) (rank : Nat) :
    Reads rank (.symbol .leftParen :: items ++ [.symbol .rightParen]) value := by
  intro yard _
  obtain ⟨inside, out, operators, hadd, hemitted, hwaiting, -, hpushes⟩ :=
    h { yard with waiting := .leftParen :: yard.waiting } (by simp [Symbol.precedence])
  obtain ⟨hclosed, hbelow, hmatched⟩ := close_of_waiting hwaiting
  refine ⟨inside.close.1, out ++ Item.ofOperators operators, [], ?_, ?_, hbelow, by simp, ?_⟩
  · rw [List.cons_append, addAll_cons, run_add_leftParen]
    show addAll _ (items ++ [.symbol .rightParen]) = _
    rw [addAll_append_of_eq_ok hadd, addAll_singleton, run_add_rightParen, hmatched]
    rfl
  · rw [hclosed, hemitted, List.append_assoc]
  · change Machine.Pushes value (out ++ Item.ofOperators operators ++ [])
    rwa [List.append_nil]

theorem Reads.apply {left right : List Item} {leftValue rightValue : Float} {operator : Operator}
    (hleft : Reads operator.precedence left leftValue)
    (hright : Reads (operator.precedence + 1) right rightValue) :
    Reads operator.precedence (left ++ .symbol (.operator operator) :: right)
      (operator.apply leftValue rightValue) := by
  intro yard hlooser
  obtain ⟨first, out₁, operators₁, hadd₁, hemitted₁, hwaiting₁, hcloser₁, hpushes₁⟩ :=
    hleft yard hlooser
  -- The operator calls out what the left side left waiting, and waits below the right side's own.
  obtain ⟨hemitted, hwaiting⟩ := addOperator_of_waiting hwaiting₁ hcloser₁ hlooser
  obtain ⟨next, out₂, operators₂, hadd₂, hemitted₂, hwaiting₂, hcloser₂, hpushes₂⟩ :=
    hright (first.addOperator operator) (by rw [hwaiting]; simp [Symbol.precedence])
  refine ⟨next, out₁ ++ Item.ofOperators operators₁ ++ out₂, operators₂ ++ [operator],
    ?_, ?_, ?_, ?_, ?_⟩
  · rw [addAll_append_of_eq_ok hadd₁, addAll_cons, run_add_operator]
    exact hadd₂
  · rw [hemitted₂, hemitted, hemitted₁]
    simp only [List.append_assoc]
  · rw [hwaiting₂, hwaiting, ofOperators, ofOperators, List.map_append, List.append_assoc]
    rfl
  · intro o ho
    rcases List.mem_append.1 ho with ho | ho
    · exact Nat.le_of_succ_le (hcloser₂ o ho)
    · obtain rfl := List.mem_singleton.1 ho
      exact Nat.le_refl _
  · have hpushes := hpushes₁.apply hpushes₂ operator
    rw [← List.append_assoc] at hpushes
    simpa [Item.ofOperators] using hpushes

theorem Reads.evaluateItems {items : List Item} {value : Float} (h : Reads 1 items value) :
    toPostfix items >>= evaluate = .ok (.value value) := by
  obtain ⟨next, out, operators, hadd, hemitted, hwaiting, -, hpushes⟩ := h {} (by simp)
  rw [List.append_nil] at hwaiting
  have hnot : Symbol.leftParen ∉ next.waiting := by
    rw [hwaiting]
    simp [ofOperators]
  have hreordered : toPostfix items = .ok (out ++ Item.ofOperators operators) := by
    rw [toPostfix_eq, hadd]
    show next.finish = _
    rw [finish, if_neg hnot, hwaiting, toList_emit_ofOperators, hemitted]
    rfl
  rw [hreordered]
  exact hpushes.evaluate

end Yard

end LineCalculator
