import LineCalculator.Proofs.Expression.Conservation

/-!
# Parentheses

All that the yard checks is that parentheses close: it counts them with the open ones that wait, and
operators and operands make no difference to the count. Items whose parentheses close are nested,
which is the shape that a proof about them follows: a term in front, or a group.
-/

namespace LineCalculator

/-- Whether every closing parenthesis has an open one, `depth` being open in front, and none stays open. -/
def closesAll (depth : Nat) : List Item → Bool
  | [] => depth == 0
  | .symbol .leftParen :: rest => closesAll (depth + 1) rest
  | .symbol .rightParen :: rest =>
    match depth with
    | 0 => false
    | outer + 1 => closesAll outer rest
  | _ :: rest => closesAll depth rest

/-! ### The yard's count -/

namespace Yard

/-- How many open parentheses wait. -/
def depth (yard : Yard) : Nat :=
  yard.waiting.count .leftParen

theorem depth_addOperator (yard : Yard) (operator : Operator) :
    (yard.addOperator operator).depth = yard.depth := by
  have hsplit := List.takeWhile_append_dropWhile (p := yieldsTo operator.precedence) (l := yard.waiting)
  have hnone := List.count_eq_zero.2 (leftParen_not_mem_yields operator yard.waiting)
  rw [depth, depth, ← hsplit, List.count_append, hnone, Nat.zero_add]
  exact List.count_cons_of_ne (by simp)

theorem depth_close {yard : Yard} (h : yard.close.2 = true) :
    yard.depth = yard.close.1.depth + 1 := by
  have hnone := List.count_eq_zero.2 (leftParen_not_mem_inside yard.waiting)
  rw [depth, waiting_of_close h, List.count_append, hnone, List.count_cons_self, Nat.zero_add, depth]

theorem close_eq_false_iff {yard : Yard} : yard.close.2 = false ↔ yard.depth = 0 := by
  constructor
  · intro h
    simp only [close, Bool.not_eq_false', List.isEmpty_iff] at h
    refine List.count_eq_zero.2 fun hmem => ?_
    have hinside := forall_of_dropWhile_eq_nil h _ hmem
    cases hinside
  · intro h
    by_cases hclose : yard.close.2 = true
    · rw [depth_close hclose] at h
      omega
    · simpa using hclose

theorem finish_eq_ok_iff (yard : Yard) :
    (∃ reordered, yard.finish = .ok reordered) ↔ yard.depth = 0 := by
  rw [finish, depth, List.count_eq_zero]
  split
  next hopen => simpa [throw, throwThe, MonadExceptOf.throw] using hopen
  next hopen => simpa [pure, Except.pure] using hopen

/-- Takes items in and lets all that waits leave. -/
def finishAfter (yard : Yard) (items : List Item) : Except Failure (List Item) :=
  match yard.addAll items with
  | .ok _ next => next.finish
  | .error failure _ => throw failure

theorem finishAfter_eq_ok_iff (yard : Yard) (items : List Item) :
    (∃ reordered, yard.finishAfter items = .ok reordered) ↔ closesAll yard.depth items = true := by
  induction items generalizing yard with
  | nil =>
    rw [closesAll, beq_iff_eq]
    exact finish_eq_ok_iff yard
  | cons item items ih =>
    rw [finishAfter, addAll_cons]
    cases item with
    | operand operand => exact ih _
    | symbol symbol =>
      cases symbol with
      | operator operator =>
        have hrest := ih (yard.addOperator operator)
        rw [depth_addOperator] at hrest
        exact hrest
      | leftParen =>
        have hrest := ih { yard with waiting := .leftParen :: yard.waiting }
        have hdepth : depth { yard with waiting := .leftParen :: yard.waiting } = yard.depth + 1 :=
          List.count_cons_self
        rw [hdepth] at hrest
        exact hrest
      | rightParen =>
        rw [run_add_rightParen]
        by_cases hclose : yard.close.2 = true
        · have hrest := ih yard.close.1
          rw [if_pos hclose, depth_close hclose]
          exact hrest
        · rw [Bool.not_eq_true] at hclose
          rw [if_neg (by simp [hclose]), close_eq_false_iff.1 hclose]
          simp [closesAll, throw, throwThe, MonadExceptOf.throw]

end Yard

theorem toPostfix_eq_ok_iff (items : List Item) :
    (∃ reordered, toPostfix items = .ok reordered) ↔ closesAll 0 items = true :=
  Yard.finishAfter_eq_ok_iff {} items

/-! ### Nested items -/

inductive Nested : List Item → Prop
  | nil : Nested []
  | term {item : Item} {rest : List Item} (h : item.isParen = false) (hrest : Nested rest) :
      Nested (item :: rest)
  | group {inner rest : List Item} (hinner : Nested inner) (hrest : Nested rest) :
      Nested (.symbol .leftParen :: inner ++ .symbol .rightParen :: rest)

/-- The items up to the parenthesis that closes the innermost open one. -/
theorem exists_nested_of_closesAll_succ {items : List Item} {depth : Nat}
    (h : closesAll (depth + 1) items = true) :
    ∃ inner rest, items = inner ++ .symbol .rightParen :: rest ∧ Nested inner ∧
      closesAll depth rest = true := by
  match items with
  | [] => cases h
  | .operand operand :: rest =>
    have hrest : closesAll (depth + 1) rest = true := h
    obtain ⟨inner, after, rfl, hinner, hafter⟩ := exists_nested_of_closesAll_succ hrest
    exact ⟨.operand operand :: inner, after, rfl, .term rfl hinner, hafter⟩
  | .symbol (.operator operator) :: rest =>
    have hrest : closesAll (depth + 1) rest = true := h
    obtain ⟨inner, after, rfl, hinner, hafter⟩ := exists_nested_of_closesAll_succ hrest
    exact ⟨.symbol (.operator operator) :: inner, after, rfl, .term rfl hinner, hafter⟩
  | .symbol .rightParen :: rest => exact ⟨[], rest, rfl, .nil, h⟩
  | .symbol .leftParen :: rest =>
    have hrest : closesAll (depth + 1 + 1) rest = true := h
    -- The group that opens here ends first, and the items go on to the parenthesis outside of it.
    obtain ⟨first, between, rfl, hfirst, hbetween⟩ := exists_nested_of_closesAll_succ hrest
    obtain ⟨second, after, rfl, hsecond, hafter⟩ := exists_nested_of_closesAll_succ hbetween
    refine ⟨.symbol .leftParen :: first ++ .symbol .rightParen :: second, after, ?_,
      .group hfirst hsecond, hafter⟩
    simp
termination_by items.length

theorem nested_of_closesAll {items : List Item} (h : closesAll 0 items = true) : Nested items := by
  match items with
  | [] => exact .nil
  | .operand operand :: rest => exact .term rfl (nested_of_closesAll h)
  | .symbol (.operator operator) :: rest => exact .term rfl (nested_of_closesAll h)
  | .symbol .rightParen :: rest => cases h
  | .symbol .leftParen :: rest =>
    have hrest : closesAll (0 + 1) rest = true := h
    obtain ⟨inner, after, rfl, hinner, hafter⟩ := exists_nested_of_closesAll_succ hrest
    exact .group hinner (nested_of_closesAll hafter)
termination_by items.length

end LineCalculator
