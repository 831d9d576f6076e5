import LineCalculator.Proofs.Expression.Parentheses
import Mathlib.Data.List.Chain
import Mathlib.Data.List.TakeWhile

/-!
# The yard after any items

A run of the yard may go on behind a closing parenthesis that was refused. All that waited has left by
then, and what has left is never looked at again, so such a yard does what a fresh one does, with
something emitted in front. Nothing is lost on the way: a parenthesis that is refused calls out what
the end of the expression would. So what holds of a yard is shown item by item, whether the item is
taken in or not. An operator waits on top of looser ones only, and there are three precedences, so
there are at most three operators above each open parenthesis and at the bottom.
-/

namespace LineCalculator

theorem Operator.precedence_bounds (operator : Operator) :
    0 < operator.precedence ∧ operator.precedence ≤ 3 := by
  cases operator <;> decide

namespace Yard

/-- The yard after an item, taken in or refused. -/
def after (yard : Yard) (item : Item) : Yard :=
  match (add item).run yard with
  | .ok _ next => next
  | .error _ next => next

/-- The yard with more items in front of all that has left it. -/
def behind (yard : Yard) (front : Array Item) : Yard :=
  { yard with emitted := front ++ yard.emitted }

variable {yard last : Yard} {item : Item} {items : List Item}

theorem after_rightParen (yard : Yard) : yard.after (.symbol .rightParen) = yard.close.1 := by
  rw [after, run_add_rightParen]
  cases yard.close.2 <;> rfl

theorem addEach_cons (yard : Yard) (item : Item) (items : List Item) :
    (yard.addEach (item :: items)).2 = ((yard.after item).addEach items).2 := by
  rw [addEach, after]
  cases (add item).run yard <;> rfl

theorem addEach_append_singleton (yard : Yard) (items : List Item) (item : Item) :
    (yard.addEach (items ++ [item])).2 = (yard.addEach items).2.after item := by
  induction items generalizing yard with
  | nil => rw [List.nil_append, addEach_cons]; rfl
  | cons first items ih => rw [List.cons_append, addEach_cons, ih, addEach_cons]

/-! ### Nothing is lost -/

theorem Separates.after (h : yard.Separates) (item : Item) : (yard.after item).Separates := by
  cases item with
  | operand operand => exact h.add (run_add_operand yard operand)
  | symbol symbol =>
    cases symbol with
    | operator operator => exact h.addOperator operator
    | leftParen => exact h.add (run_add_leftParen yard)
    | rightParen =>
      rw [after_rightParen]
      exact h.close

theorem perm_terms_held_after (yard : Yard) (item : Item) :
    (Item.terms (yard.after item).held).Perm (Item.terms yard.held ++ Item.terms [item]) := by
  cases item with
  | operand operand => exact perm_terms_held_add (run_add_operand yard operand)
  | symbol symbol =>
    cases symbol with
    | operator operator => exact perm_terms_held_add (run_add_operator yard operator)
    | leftParen => exact perm_terms_held_add (run_add_leftParen yard)
    | rightParen =>
      rw [after_rightParen, terms_held_close]
      exact .of_eq (List.append_nil _).symm

theorem filter_isOperand_emit (yard : Yard) (symbols : List Symbol) :
    (yard.emit symbols).toList.filter Item.isOperand = yard.emitted.toList.filter Item.isOperand := by
  have hnone : (symbols.map Item.symbol).filter Item.isOperand = [] := by
    rw [List.filter_map]
    exact (List.map_eq_nil_iff).2 (List.filter_eq_nil_iff.2 fun _ _ => Bool.false_ne_true)
  rw [toList_emit, List.filter_append, hnone, List.append_nil]

theorem filter_isOperand_after (yard : Yard) (item : Item) :
    (yard.after item).emitted.toList.filter Item.isOperand =
      yard.emitted.toList.filter Item.isOperand ++ [item].filter Item.isOperand := by
  cases item with
  | operand operand =>
    show (yard.emitted.push (.operand operand)).toList.filter Item.isOperand = _
    rw [Array.toList_push, List.filter_append]
  | symbol symbol =>
    rw [List.filter_singleton, Item.isOperand, cond_false, List.append_nil]
    cases symbol with
    | operator operator => exact filter_isOperand_emit yard _
    | leftParen => rfl
    | rightParen =>
      rw [after_rightParen]
      exact filter_isOperand_emit yard _

/-- In a yard without stray parentheses, what is held is terms and the open parentheses that wait. -/
theorem Separates.perm_held (h : yard.Separates) :
    yard.held.Perm (Item.terms yard.held ++ List.replicate yard.depth (.symbol .leftParen)) := by
  have hparens : yard.held.filter Item.isParen = List.replicate yard.depth (.symbol .leftParen) := by
    have hemitted : yard.emitted.toList.filter Item.isParen = [] :=
      List.filter_eq_nil_iff.2 fun item hmem => by rw [h.emitted item hmem]; exact Bool.false_ne_true
    have hwaiting : yard.waiting.filter (Item.isParen ∘ Item.symbol) =
        yard.waiting.filter (· == Symbol.leftParen) := by
      apply List.filter_congr
      intro symbol hmem
      cases symbol with
      | operator operator => rfl
      | leftParen => rfl
      | rightParen => exact absurd hmem h.waiting
    rw [held, List.filter_append, hemitted, List.nil_append, List.filter_map, hwaiting,
      List.filter_beq, List.map_replicate, depth]
  have hsplit := List.filter_append_perm (fun item => !item.isParen) yard.held
  simp only [Bool.not_not, hparens] at hsplit
  exact hsplit.symm

/-! ### What waits binds closer and closer -/

/-- Each symbol that waits is an open parenthesis or binds closer than the one below it. -/
def Rising (waiting : List Symbol) : Prop :=
  waiting.IsChain fun above below => above = .leftParen ∨ below.precedence < above.precedence

theorem Rising.after (h : Rising yard.waiting) (item : Item) : Rising (yard.after item).waiting := by
  cases item with
  | operand operand => exact h
  | symbol symbol =>
    cases symbol with
    | operator operator =>
      refine List.isChain_cons.2 ⟨fun below hbelow => .inr ?_, h.suffix (List.dropWhile_suffix _)⟩
      have hstays := not_of_mem_head?_dropWhile hbelow
      rw [yieldsTo, decide_eq_false_iff_not] at hstays
      exact Nat.lt_of_not_le hstays
    | leftParen => exact List.isChain_cons.2 ⟨fun _ _ => .inl rfl, h⟩
    | rightParen =>
      rw [after_rightParen]
      exact h.suffix ((List.drop_suffix 1 _).trans (List.dropWhile_suffix _))

theorem Rising.pairwise {waiting : List Symbol} (h : Rising waiting) {operators : List Operator}
    (hwithin : ofOperators operators <:+: waiting) :
    (operators.map Operator.precedence).Pairwise (· > ·) := by
  obtain ⟨above, below, hsplit⟩ := hwithin
  rw [Rising, ← hsplit] at h
  have hchain := (List.isChain_map _).1 h.left_of_append.right_of_append
  rw [← List.isChain_iff_pairwise, List.isChain_map]
  refine hchain.imp fun operator other hclose => hclose.resolve_left ?_
  rintro ⟨⟩

/-- How close the symbol on top binds. -/
def topRank : List Symbol → Nat
  | [] => 0
  | symbol :: _ => symbol.precedence

theorem topRank_le (waiting : List Symbol) : topRank waiting ≤ 3 := by
  rcases waiting with _ | ⟨operator | _ | _, below⟩
  · exact Nat.zero_le 3
  · exact operator.precedence_bounds.2
  · exact Nat.zero_le 3
  · exact Nat.zero_le 3

/-- There are at most as many operators on top of the last open parenthesis as the one on top binds close. -/
theorem Rising.length_le_topRank {waiting : List Symbol} (h : Rising waiting)
    (hclosed : Symbol.rightParen ∉ waiting) :
    waiting.length ≤ topRank waiting + 4 * waiting.count .leftParen := by
  induction waiting with
  | nil => exact Nat.le_refl 0
  | cons symbol below ih =>
    obtain ⟨htop, hbelow⟩ := List.isChain_cons.1 h
    have hlength := ih hbelow fun hmem => hclosed (List.mem_cons_of_mem symbol hmem)
    rw [List.length_cons]
    cases symbol with
    | operator operator =>
      have hlooser : topRank below < operator.precedence := by
        cases below with
        | nil => exact operator.precedence_bounds.1
        | cons other rest => exact (htop other rfl).resolve_left (by rintro ⟨⟩)
      rw [List.count_cons_of_ne (by simp)]
      show below.length + 1 ≤ operator.precedence + _
      omega
    | leftParen =>
      have hrank := topRank_le below
      rw [List.count_cons_self]
      omega
    | rightParen => exact absurd List.mem_cons_self hclosed

/-! ### Refused items -/

theorem close_of_not_mem (h : .leftParen ∉ yard.waiting) :
    yard.close = ({ emitted := yard.emit yard.waiting }, false) := by
  have hinside : ∀ symbol ∈ yard.waiting, (symbol != Symbol.leftParen) = true := by
    intro symbol hmem
    rw [bne_iff_ne]
    rintro rfl
    exact h hmem
  rw [close, dropWhile_eq_nil_of_forall hinside, List.takeWhile_eq_self_iff.2 hinside]
  rfl

/-- An item is refused when it is a closing parenthesis without an open one, and then all that waits leaves. -/
theorem run_add_eq_error_iff {failure : Failure} :
    (add item).run yard = .error failure last ↔
      item = .symbol .rightParen ∧ .leftParen ∉ yard.waiting ∧ failure = .invalidExpression ∧
        last = { emitted := yard.emit yard.waiting } := by
  constructor
  · intro h
    cases item with
    | operand operand => cases h
    | symbol symbol =>
      cases symbol with
      | operator operator => cases h
      | leftParen => cases h
      | rightParen =>
        rw [run_add_rightParen] at h
        cases hclose : yard.close.2 with
        | true =>
          rw [hclose] at h
          cases h
        | false =>
          have hopen := List.count_eq_zero.1 (close_eq_false_iff.1 hclose)
          rw [close_of_not_mem hopen] at h
          cases h
          exact ⟨rfl, hopen, rfl, rfl⟩
  · rintro ⟨rfl, hopen, rfl, rfl⟩
    rw [run_add_rightParen, close_of_not_mem hopen]
    rfl

/-! ### What was emitted before -/

theorem emit_behind (yard : Yard) (front : Array Item) (symbols : List Symbol) :
    (yard.behind front).emit symbols = front ++ yard.emit symbols := by
  apply Array.toList_inj.1
  rw [toList_emit, Array.toList_append, toList_emit, behind, Array.toList_append, List.append_assoc]

/-- What has left before an item makes no difference to what the item does. -/
theorem run_add_behind (yard : Yard) (front : Array Item) (item : Item) :
    (add item).run (yard.behind front) =
      match (add item).run yard with
      | .ok _ next => .ok () (next.behind front)
      | .error failure last => .error failure (last.behind front) := by
  cases item with
  | operand operand =>
    rw [run_add_operand, run_add_operand]
    simp only [behind, Array.append_push]
  | symbol symbol =>
    cases symbol with
    | operator operator =>
      rw [run_add_operator, run_add_operator]
      simp only [addOperator, emit_behind]
      rfl
    | leftParen => rfl
    | rightParen =>
      have hclose : (yard.behind front).close = (yard.close.1.behind front, yard.close.2) := by
        simp only [close, emit_behind]
        rfl
      rw [run_add_rightParen, run_add_rightParen, hclose]
      cases yard.close.2 <;> rfl

theorem addEach_behind (yard : Yard) (front : Array Item) (items : List Item) :
    (yard.behind front).addEach items =
      ((yard.addEach items).1, (yard.addEach items).2.behind front) := by
  induction items generalizing yard with
  | nil => rfl
  | cons item items ih =>
    rw [addEach, addEach, run_add_behind]
    cases (add item).run yard with
    | ok done next =>
      dsimp only
      rw [ih]
    | error failure last =>
      dsimp only
      rw [ih]

theorem finish_behind (yard : Yard) (front : Array Item) :
    (yard.behind front).finish = (front.toList ++ ·) <$> yard.finish := by
  rw [finish, finish, emit_behind, Array.toList_append]
  show (if Symbol.leftParen ∈ yard.waiting then _ else _) = _
  split <;> rfl

/-! ### Runs -/

structure Kept (items : List Item) (yard : Yard) : Prop where
  separates : yard.Separates
  rising : Rising yard.waiting
  terms : (Item.terms yard.held).Perm (Item.terms items)
  operands : yard.emitted.toList.filter Item.isOperand = items.filter Item.isOperand

theorem kept_empty : Kept [] {} :=
  ⟨separates_empty, .nil, .nil, rfl⟩

theorem Kept.after (h : Kept items yard) (item : Item) : Kept (items ++ [item]) (yard.after item) where
  separates := h.separates.after item
  rising := h.rising.after item
  terms := by
    rw [Item.terms_append]
    exact (perm_terms_held_after yard item).trans (h.terms.append_right _)
  operands := by rw [filter_isOperand_after, h.operands, List.filter_append]

theorem kept_addEach (items : List Item) : Kept items (addEach {} items).2 := by
  induction items using List.reverseRecOn with
  | nil => exact kept_empty
  | append_singleton items item ih =>
    rw [addEach_append_singleton]
    exact ih.after item

/-- What a refused item makes of a yard: a fresh one behind the output that the yard would have finished with. -/
structure Restarts (yard last : Yard) : Prop where
  waiting : last.waiting = []
  finished : yard.finish = .ok last.emitted.toList
  later : ∀ items, last.addEach items =
    ((addEach {} items).1, (addEach {} items).2.behind last.emitted)
  finish : ∀ items, (last.addEach items).2.finish =
    (last.emitted.toList ++ ·) <$> (addEach {} items).2.finish

/-- What holds of a yard after items, whichever of them were refused. -/
structure Upkeep (items : List Item) (yard : Yard) : Prop where
  /-- Operators and open parentheses wait. -/
  closed : .rightParen ∉ yard.waiting
  /-- Operators without a parenthesis between them bind closer and closer from bottom to top. -/
  rising : ∀ operators, ofOperators operators <:+: yard.waiting →
    (operators.map Operator.precedence).Pairwise (· > ·)
  length_le : yard.waiting.length ≤ 3 + 4 * yard.depth
  /-- Every operand and operator is there once, and else only the open parentheses that wait. -/
  held : yard.held.Perm (Item.terms items ++ List.replicate yard.depth (.symbol .leftParen))
  emitted : ∀ item ∈ yard.emitted.toList, item.isParen = false
  operands : yard.emitted.toList.filter Item.isOperand = items.filter Item.isOperand
  /-- The next item is refused if it closes a parenthesis and none is open, and only then. -/
  refused_iff : ∀ item, (∃ failure last, (add item).run yard = .error failure last) ↔
    item = .symbol .rightParen ∧ .leftParen ∉ yard.waiting
  finish_iff : (∃ reordered, yard.finish = .ok reordered) ↔ .leftParen ∉ yard.waiting
  refused : ∀ item failure last, (add item).run yard = .error failure last → Restarts yard last

theorem restarts_of_run_add {failure : Failure} (h : (add item).run yard = .error failure last) :
    Restarts yard last := by
  obtain ⟨-, hopen, -, rfl⟩ := run_add_eq_error_iff.1 h
  have hfresh : ({ emitted := yard.emit yard.waiting } : Yard) =
      ({} : Yard).behind (yard.emit yard.waiting) := by
    rw [behind, Array.append_empty]
  have hlater := fun items => addEach_behind {} (yard.emit yard.waiting) items
  rw [← hfresh] at hlater
  refine ⟨rfl, ?_, hlater, fun items => ?_⟩
  · rw [finish, if_neg hopen]
    rfl
  · rw [hlater, finish_behind]

/-- A yard is kept in order by any items, refused or not. -/
theorem upkeep_addEach (items : List Item) : Upkeep items (addEach {} items).2 := by
  have hkept := kept_addEach items
  generalize (addEach {} items).2 = yard at hkept
  refine ⟨hkept.separates.waiting, fun operators => hkept.rising.pairwise, ?_, ?_,
    hkept.separates.emitted, hkept.operands, fun item => ?_, ?_, fun item failure last => restarts_of_run_add⟩
  · have hlength := hkept.rising.length_le_topRank hkept.separates.waiting
    have hrank := topRank_le yard.waiting
    rw [depth]
    omega
  · exact hkept.separates.perm_held.trans (hkept.terms.append_right _)
  · constructor
    · rintro ⟨failure, last, hrefused⟩
      obtain ⟨hitem, hopen, -⟩ := run_add_eq_error_iff.1 hrefused
      exact ⟨hitem, hopen⟩
    · rintro ⟨hitem, hopen⟩
      exact ⟨_, _, run_add_eq_error_iff.2 ⟨hitem, hopen, rfl, rfl⟩⟩
  · rw [finish_eq_ok_iff, depth, List.count_eq_zero]

end Yard

end LineCalculator
