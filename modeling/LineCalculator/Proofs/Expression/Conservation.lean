import LineCalculator.Evaluation.Line
import LineCalculator.Proofs.Expression.Yard

/-!
# Nothing is lost in the yard

Each step of the yard keeps all that it holds and takes one item in; only a closing parenthesis
takes an open one away with itself. Since a parenthesis never leaves the yard, the items that have
left it at the end are the operands and operators of the expression in some order. Two things follow
for the evaluation of such a list. It does not end in a binding unless one was put in, and all that
it can fail with is an invalid expression.
-/

namespace LineCalculator

namespace Item

def isParen : Item → Bool
  | symbol .leftParen | symbol .rightParen => true
  | _ => false

/-- The operands and operators among items. -/
def terms (items : List Item) : List Item :=
  items.filter fun item => !item.isParen

theorem terms_append (left right : List Item) : terms (left ++ right) = terms left ++ terms right :=
  List.filter_append ..

theorem terms_eq_self {items : List Item} (h : ∀ item ∈ items, item.isParen = false) :
    terms items = items :=
  List.filter_eq_self.2 fun item hmem => by rw [h item hmem, Bool.not_false]

end Item

namespace Yard

/-- All that is in a yard. -/
def held (yard : Yard) : List Item :=
  yard.emitted.toList ++ yard.waiting.map .symbol

/-- No parenthesis has left the yard, and those that wait are open ones. -/
structure Separates (yard : Yard) : Prop where
  emitted : ∀ item ∈ yard.emitted.toList, item.isParen = false
  waiting : Symbol.rightParen ∉ yard.waiting

theorem separates_empty : Separates {} :=
  ⟨by simp, by simp⟩

/-! ### One step -/

theorem toList_emit (yard : Yard) (symbols : List Symbol) :
    (yard.emit symbols).toList = yard.emitted.toList ++ symbols.map .symbol := by
  simp [emit]

theorem leftParen_not_mem_yields (operator : Operator) (waiting : List Symbol) :
    Symbol.leftParen ∉ waiting.takeWhile (yieldsTo operator.precedence) := by
  intro hmem
  have hyields := mem_takeWhile hmem
  cases operator <;> cases hyields

theorem leftParen_not_mem_inside (waiting : List Symbol) :
    Symbol.leftParen ∉ waiting.takeWhile fun symbol => symbol != Symbol.leftParen := by
  intro hmem
  have hinside := mem_takeWhile hmem
  cases hinside

theorem waiting_of_close {yard : Yard} (h : yard.close.2 = true) :
    yard.waiting = (yard.waiting.takeWhile fun symbol => symbol != Symbol.leftParen) ++
      .leftParen :: yard.close.1.waiting := by
  have hsplit := List.takeWhile_append_dropWhile (p := fun symbol => symbol != Symbol.leftParen)
    (l := yard.waiting)
  have hhead : ∀ symbol ∈ (yard.waiting.dropWhile fun symbol => symbol != Symbol.leftParen).head?,
      (symbol != Symbol.leftParen) = false := fun _ => not_of_mem_head?_dropWhile
  simp only [close, Bool.not_eq_true', List.isEmpty_eq_false_iff] at h ⊢
  cases hbelow : yard.waiting.dropWhile fun symbol => symbol != Symbol.leftParen with
  | nil => exact absurd hbelow h
  | cons symbol rest =>
    rw [hbelow] at hsplit hhead
    obtain rfl : symbol = Symbol.leftParen := by simpa using hhead symbol rfl
    exact hsplit.symm

theorem Separates.emit {yard : Yard} (h : yard.Separates) {symbols : List Symbol}
    (hwaiting : symbols ⊆ yard.waiting)
    (hopen : Symbol.leftParen ∉ symbols) :
    ∀ item ∈ (yard.emit symbols).toList, item.isParen = false := by
  intro item hmem
  rw [toList_emit, List.mem_append, List.mem_map] at hmem
  rcases hmem with hmem | ⟨symbol, hsymbol, rfl⟩
  · exact h.emitted item hmem
  · cases symbol with
    | operator operator => rfl
    | leftParen => exact absurd hsymbol hopen
    | rightParen => exact absurd (hwaiting hsymbol) h.waiting

theorem Separates.addOperator {yard : Yard} (h : yard.Separates) (operator : Operator) :
    (yard.addOperator operator).Separates := by
  refine ⟨h.emit (List.takeWhile_sublist _).subset (leftParen_not_mem_yields operator yard.waiting),
    fun hmem => ?_⟩
  rcases List.mem_cons.1 hmem with hsame | hmem
  · cases hsame
  · exact h.waiting ((List.dropWhile_sublist _).subset hmem)

theorem Separates.close {yard : Yard} (h : yard.Separates) : yard.close.1.Separates := by
  refine ⟨h.emit (List.takeWhile_sublist _).subset (leftParen_not_mem_inside yard.waiting),
    fun hmem => ?_⟩
  exact h.waiting ((List.dropWhile_sublist _).subset (List.mem_of_mem_drop hmem))

theorem Separates.add {yard next : Yard} {item : Item} (h : yard.Separates)
    (hadd : (add item).run yard = .ok () next) : next.Separates := by
  cases item with
  | operand operand =>
    rw [run_add_operand] at hadd
    cases hadd
    refine ⟨fun item hmem => ?_, h.waiting⟩
    rw [Array.toList_push, List.mem_append, List.mem_singleton] at hmem
    rcases hmem with hmem | rfl
    · exact h.emitted item hmem
    · rfl
  | symbol symbol =>
    cases symbol with
    | operator operator =>
      rw [run_add_operator] at hadd
      cases hadd
      exact h.addOperator operator
    | leftParen =>
      rw [run_add_leftParen] at hadd
      cases hadd
      exact ⟨h.emitted, by simpa using h.waiting⟩
    | rightParen =>
      rw [run_add_rightParen] at hadd
      split at hadd
      · cases hadd
        exact h.close
      · cases hadd

theorem perm_held_addOperator (yard : Yard) (operator : Operator) :
    (yard.addOperator operator).held.Perm (yard.held ++ [.symbol (.operator operator)]) := by
  have hsplit : yard.held = yard.emitted.toList ++
      ((yard.waiting.takeWhile (yieldsTo operator.precedence)).map Item.symbol ++
        (yard.waiting.dropWhile (yieldsTo operator.precedence)).map Item.symbol) := by
    rw [← List.map_append, List.takeWhile_append_dropWhile, held]
  rw [hsplit, held, addOperator, toList_emit, List.map_cons]
  simp only [List.append_assoc]
  exact ((List.perm_append_singleton _ _).symm.append_left _).append_left _

/-- A closing parenthesis takes at most an open one away. -/
theorem terms_held_close (yard : Yard) : Item.terms yard.close.1.held = Item.terms yard.held := by
  have hsplit := List.takeWhile_append_dropWhile (p := fun symbol => symbol != Symbol.leftParen)
    (l := yard.waiting)
  have hhead : ∀ symbol ∈ (yard.waiting.dropWhile fun symbol => symbol != Symbol.leftParen).head?,
      (symbol != Symbol.leftParen) = false := fun _ => not_of_mem_head?_dropWhile
  conv => rhs; rw [held, ← hsplit]
  rw [held, close, toList_emit]
  generalize yard.waiting.dropWhile (fun symbol => symbol != Symbol.leftParen) = below at hhead
  cases below with
  | nil => rw [List.append_nil, List.drop_nil, List.map_nil, List.append_nil]
  | cons symbol rest =>
    obtain rfl : symbol = Symbol.leftParen := by simpa using hhead symbol rfl
    simp [Item.terms, Item.isParen]

/-- A step keeps what the yard holds and takes its item in. -/
theorem perm_terms_held_add {yard next : Yard} {item : Item}
    (h : (add item).run yard = .ok () next) :
    (Item.terms next.held).Perm (Item.terms yard.held ++ Item.terms [item]) := by
  rw [← Item.terms_append]
  cases item with
  | operand operand =>
    rw [run_add_operand] at h
    cases h
    rw [held, held, Array.toList_push, List.append_assoc, List.append_assoc]
    exact ((List.perm_append_comm).append_left _).filter _
  | symbol symbol =>
    cases symbol with
    | operator operator =>
      rw [run_add_operator] at h
      cases h
      exact (perm_held_addOperator yard operator).filter _
    | leftParen =>
      rw [run_add_leftParen] at h
      cases h
      simp [held, Item.terms, Item.isParen]
    | rightParen =>
      rw [run_add_rightParen] at h
      split at h
      next hmatched =>
        cases h
        rw [terms_held_close, Item.terms_append]
        exact .of_eq (List.append_nil _).symm
      next => cases h

/-! ### A whole run -/

theorem Separates.addAll {items : List Item} {yard next : Yard} (h : yard.Separates)
    (hadd : yard.addAll items = .ok () next) : next.Separates := by
  induction items generalizing yard with
  | nil =>
    cases hadd
    exact h
  | cons item items ih =>
    rw [addAll_cons] at hadd
    split at hadd
    next done after hafter => exact ih (h.add hafter) hadd
    next => cases hadd

theorem perm_terms_held_addAll {items : List Item} {yard next : Yard}
    (h : yard.addAll items = .ok () next) :
    (Item.terms next.held).Perm (Item.terms yard.held ++ Item.terms items) := by
  induction items generalizing yard with
  | nil =>
    cases h
    exact .of_eq (List.append_nil _).symm
  | cons item items ih =>
    rw [addAll_cons] at h
    split at h
    next done after hafter =>
      have hitem := (perm_terms_held_add hafter).append_right (Item.terms items)
      rw [List.append_assoc, ← Item.terms_append [item] items] at hitem
      exact (ih h).trans hitem
    next => cases h

theorem addAll_eq_error {items : List Item} {yard last : Yard} {failure : Failure}
    (h : yard.addAll items = .error failure last) : failure = .invalidExpression := by
  induction items generalizing yard with
  | nil => cases h
  | cons item items ih =>
    rw [addAll_cons] at h
    split at h
    next => exact ih h
    next found after hadd =>
      cases h
      cases item with
      | operand operand => cases hadd
      | symbol symbol =>
        cases symbol with
        | operator operator => cases hadd
        | leftParen => cases hadd
        | rightParen =>
          rw [run_add_rightParen] at hadd
          split at hadd <;> cases hadd
          rfl

/-- The postfix order has the operands and operators of the infix order. -/
theorem perm_toPostfix {items reordered : List Item} (h : toPostfix items = .ok reordered) :
    reordered.Perm (Item.terms items) := by
  obtain ⟨next, hadd, hopen, rfl⟩ := toPostfix_eq_ok h
  have hterms := (separates_empty.addAll hadd).emit (List.Subset.refl _) hopen
  have hperm := perm_terms_held_addAll hadd
  rw [held, ← toList_emit, Item.terms_eq_self hterms] at hperm
  exact hperm

end Yard

/-! ### Evaluation -/

variable {items reordered : List Item}

theorem isBinding_of_toPostfix (h : toPostfix items = .ok reordered)
    (hitems : ∀ item ∈ items, item.isBinding = false) :
    ∀ item ∈ reordered, item.isBinding = false := by
  intro item hmem
  exact hitems item (List.mem_of_mem_filter ((Yard.perm_toPostfix h).mem_iff.1 hmem))

theorem evaluateItems_eq_ok {evaluation : Evaluation} (h : evaluateItems items = .ok evaluation) :
    ∃ reordered, toPostfix items = .ok reordered ∧ evaluate reordered = .ok evaluation :=
  bind_eq_ok_iff.1 h

theorem exists_run_of_evaluate {evaluation : Evaluation}
    (hitems : ∀ item ∈ items, item.isBinding = false)
    (h : evaluate items = .ok evaluation) :
    ∃ machine, Machine.run {} items = .ok (machine, none) := by
  obtain ⟨⟨machine, bound⟩, hrun, -⟩ := bind_eq_ok_iff.1 h
  obtain ⟨rfl, -⟩ := Machine.run_eq_ok hitems hrun
  exact ⟨machine, hrun⟩

theorem exists_value_of_evaluateItems {evaluation : Evaluation}
    (hitems : ∀ item ∈ items, item.isBinding = false)
    (h : evaluateItems items = .ok evaluation) : ∃ value, evaluation = .value value := by
  obtain ⟨reordered, hreordered, hevaluate⟩ := evaluateItems_eq_ok h
  obtain ⟨machine, hrun⟩ := exists_run_of_evaluate (isBinding_of_toPostfix hreordered hitems) hevaluate
  rw [evaluate_of_run hrun] at hevaluate
  exact ⟨machine.result, (Except.ok.inj hevaluate).symm⟩

/-! ### Failures -/

theorem toPostfix_eq_error {failure : Failure} (h : toPostfix items = .error failure) :
    failure = .invalidExpression := by
  rw [Yard.toPostfix_eq] at h
  split at h
  next =>
    rw [Yard.finish] at h
    split at h <;> cases h
    rfl
  next found last hadd =>
    cases h
    exact Yard.addAll_eq_error hadd

theorem evaluateItems_eq_error {failure : Failure} (h : evaluateItems items = .error failure) :
    failure = .invalidExpression := by
  rcases bind_eq_error_iff.1 h with hreordered | ⟨reordered, -, hevaluate⟩
  · exact toPostfix_eq_error hreordered
  · exact evaluate_eq_error hevaluate

end LineCalculator
