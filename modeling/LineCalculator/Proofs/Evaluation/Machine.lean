import LineCalculator.Evaluation.Basic
import Mathlib.Data.List.Basic

/-!
# Runs of the operand stack

What a run of items without a binding does to the stack. Such items run in parts, every operand
makes the stack one value higher and every operator one lower, and all that can fail is an operator
that finds less than two values. Items that together push a value, whatever is on the stack and
whatever comes behind them, are the postfix form of an expression.
-/

namespace LineCalculator

namespace Item

def isOperand : Item → Bool
  | operand _ => true
  | symbol _ => false

def isBinding : Item → Bool
  | operand (.binding _ _) => true
  | _ => false

def isOperator : Item → Bool
  | symbol (.operator _) => true
  | _ => false

/-- Operators as they leave the yard. -/
def ofOperators (operators : List Operator) : List Item :=
  operators.map fun operator => .symbol (.operator operator)

theorem countP_isOperator_ofOperators (operators : List Operator) :
    (ofOperators operators).countP isOperator = operators.length := by
  have hall : ∀ item ∈ ofOperators operators, item.isOperator = true := by simp [ofOperators, isOperator]
  rw [List.countP_eq_length.2 hall, ofOperators, List.length_map]

theorem countP_isOperand_ofOperators (operators : List Operator) :
    (ofOperators operators).countP isOperand = 0 := by
  rw [List.countP_eq_zero]
  simp [ofOperators, isOperand]

end Item

def Operand.value : Operand → Float
  | number value | reference _ value | binding _ value => value

namespace Machine

theorem run_operand {operand : Operand} (h : (Item.operand operand).isBinding = false)
    (machine : Machine)
    (rest : List Item) :
    machine.run (.operand operand :: rest) = (machine.push operand.value).run rest := by
  cases operand with
  | number value => rfl
  | reference name value => rfl
  | binding name value => cases h

theorem run_operator (machine : Machine) (operator : Operator) (rest : List Item) :
    machine.run (.symbol (.operator operator) :: rest) =
      machine.apply operator >>= fun next => next.run rest :=
  rfl

theorem apply_push_push (machine : Machine) (operator : Operator) (left right : Float) :
    ((machine.push left).push right).apply operator = .ok (machine.push (operator.apply left right)) :=
  rfl

theorem apply_eq_ok {machine next : Machine} {operator : Operator}
    (h : machine.apply operator = .ok next) :
    next.slots.length + 1 = machine.slots.length := by
  unfold apply at h
  split at h
  next hslots =>
    cases h
    rw [hslots]
    rfl
  next => cases h

theorem slots_ne_nil_of_apply {machine next : Machine} {operator : Operator}
    (h : machine.apply operator = .ok next) : next.slots ≠ [] := by
  unfold apply at h
  split at h <;> cases h
  simp [push]

theorem apply_eq_error {machine : Machine} {operator : Operator} {failure : Failure}
    (h : machine.apply operator = .error failure) : failure = .invalidExpression := by
  unfold apply at h
  split at h <;> cases h
  rfl

theorem exists_apply_eq_ok (machine : Machine) (operator : Operator)
    (h : 2 ≤ machine.slots.length) :
    ∃ next, machine.apply operator = .ok next := by
  unfold apply
  split
  next => exact ⟨_, rfl⟩
  next hslots =>
    match hlist : machine.slots, h with
    | right :: left :: below, _ => exact absurd hlist (hslots right left below)

theorem run_append_of_eq_ok {left : List Item} {machine next : Machine}
    (h : machine.run left = .ok (next, none))
    (right : List Item) : machine.run (left ++ right) = next.run right := by
  induction left generalizing machine with
  | nil =>
    cases h
    rfl
  | cons item items ih =>
    cases item with
    | operand operand =>
      cases operand with
      | number value => exact ih h
      | reference name value => exact ih h
      | binding name value => cases h
    | symbol symbol =>
      cases symbol with
      | operator operator =>
        rw [run_operator] at h
        obtain ⟨after, happly, hafter⟩ := bind_eq_ok_iff.1 h
        rw [List.cons_append, run_operator, happly]
        exact ih hafter
      | leftParen => cases h
      | rightParen => cases h

/-- A run without bindings ends with as many values on the stack as operands and operators make it. -/
theorem run_eq_ok {items : List Item} (h : ∀ item ∈ items, item.isBinding = false)
    {machine next : Machine}
    {bound : Option (Text × Float)} (hrun : machine.run items = .ok (next, bound)) :
    bound = none ∧
      next.slots.length + items.countP Item.isOperator =
        machine.slots.length + items.countP Item.isOperand := by
  induction items generalizing machine with
  | nil =>
    cases hrun
    exact ⟨rfl, rfl⟩
  | cons item items ih =>
    have hitem := h item List.mem_cons_self
    have hitems : ∀ other ∈ items, other.isBinding = false := fun other hmem =>
      h other (List.mem_cons_of_mem item hmem)
    cases item with
    | operand operand =>
      rw [run_operand hitem] at hrun
      obtain ⟨hnone, hlength⟩ := ih hitems hrun
      refine ⟨hnone, ?_⟩
      rw [List.countP_cons_of_neg (by simp [Item.isOperator]), List.countP_cons_of_pos rfl, hlength]
      simp only [push, List.length_cons]
      omega
    | symbol symbol =>
      cases symbol with
      | operator operator =>
        rw [run_operator] at hrun
        obtain ⟨after, happly, hafter⟩ := bind_eq_ok_iff.1 hrun
        obtain ⟨hnone, hlength⟩ := ih hitems hafter
        have hlower := apply_eq_ok happly
        refine ⟨hnone, ?_⟩
        rw [List.countP_cons_of_pos rfl, List.countP_cons_of_neg (by simp [Item.isOperand])]
        omega
      | leftParen => cases hrun
      | rightParen => cases hrun

/-- Whatever a run meets, it fails in one way. -/
theorem run_eq_error {items : List Item} {machine : Machine} {failure : Failure}
    (h : machine.run items = .error failure) : failure = .invalidExpression := by
  induction items generalizing machine with
  | nil => cases h
  | cons item items ih =>
    cases item with
    | operand operand =>
      cases operand with
      | number value => exact ih h
      | reference name value => exact ih h
      | binding name value => cases h
    | symbol symbol =>
      cases symbol with
      | operator operator =>
        rw [run_operator] at h
        rcases bind_eq_error_iff.1 h with happly | ⟨after, -, hafter⟩
        · exact apply_eq_error happly
        · exact ih hafter
      | leftParen =>
        cases h
        rfl
      | rightParen =>
        cases h
        rfl

/-- A stack that has a value keeps one, since an operator puts its result back. -/
theorem slots_ne_nil_of_run {items : List Item} {machine next : Machine}
    (hrun : machine.run items = .ok (next, none))
    (h : machine.slots ≠ [] ∨ ∃ item ∈ items, item.isOperand = true) : next.slots ≠ [] := by
  induction items generalizing machine with
  | nil =>
    cases hrun
    simpa using h
  | cons item items ih =>
    cases item with
    | operand operand =>
      cases operand with
      | number value => exact ih hrun (.inl (by simp [push]))
      | reference name value => exact ih hrun (.inl (by simp [push]))
      | binding name value => cases hrun
    | symbol symbol =>
      cases symbol with
      | operator operator =>
        rw [run_operator] at hrun
        obtain ⟨after, happly, hafter⟩ := bind_eq_ok_iff.1 hrun
        exact ih hafter (.inl (slots_ne_nil_of_apply happly))
      | leftParen => cases hrun
      | rightParen => cases hrun

/-- Operators run when the stack holds more values than there are operators. -/
theorem exists_run_ofOperators {operators : List Operator} (machine : Machine)
    (h : operators.length < machine.slots.length) :
    ∃ next, machine.run (Item.ofOperators operators) = .ok (next, none) ∧
      next.slots.length + operators.length = machine.slots.length := by
  induction operators generalizing machine with
  | nil => exact ⟨machine, rfl, rfl⟩
  | cons operator operators ih =>
    rw [List.length_cons] at h
    obtain ⟨after, happly⟩ := exists_apply_eq_ok machine operator (by omega)
    have hafter := apply_eq_ok happly
    obtain ⟨next, hrun, hlength⟩ := ih after (by omega)
    refine ⟨next, ?_, ?_⟩
    · rw [Item.ofOperators, List.map_cons, run_operator, happly]
      exact hrun
    · rw [List.length_cons]
      omega

/-! ### Items that push one value -/

def Pushes (value : Float) (items : List Item) : Prop :=
  ∀ (machine : Machine) (rest : List Item), machine.run (items ++ rest) = (machine.push value).run rest

theorem pushes_operand {operand : Operand} (h : (Item.operand operand).isBinding = false) :
    Pushes operand.value [.operand operand] := fun machine rest =>
  run_operand h machine rest

theorem Pushes.apply {left right : Float} {first second : List Item} (hfirst : Pushes left first)
    (hsecond : Pushes right second) (operator : Operator) :
    Pushes (operator.apply left right) (first ++ second ++ [.symbol (.operator operator)]) := by
  intro machine rest
  rw [List.append_assoc, List.append_assoc, hfirst, hsecond, List.singleton_append, run_operator,
    apply_push_push]
  rfl

theorem Pushes.evaluate {value : Float} {items : List Item} (h : Pushes value items) :
    evaluate items = .ok (.value value) := by
  have hrun := h {} []
  rw [List.append_nil] at hrun
  rw [LineCalculator.evaluate, hrun]
  rfl

end Machine

theorem evaluate_of_run {items : List Item} {machine : Machine}
    (h : Machine.run {} items = .ok (machine, none)) :
    evaluate items = .ok (.value machine.result) := by
  rw [evaluate, h]
  rfl

theorem evaluate_eq_error {items : List Item} {failure : Failure}
    (h : evaluate items = .error failure) :
    failure = .invalidExpression := by
  rcases bind_eq_error_iff.1 h with hrun | ⟨⟨machine, bound⟩, -, hresult⟩
  · exact Machine.run_eq_error hrun
  · cases bound <;> cases hresult

end LineCalculator
