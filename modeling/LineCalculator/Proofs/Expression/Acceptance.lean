import LineCalculator.Proofs.Expression.Parentheses
import Mathlib.Data.List.Chain

/-!
# Which items are accepted

No stage looks at the grammar of an expression, and yet only expressions are accepted. That
expressions are accepted is seen from the height of the operand stack: with what has left the yard
so far it holds one value for every operator that waits, and one more behind an operand, so an
operator that is called out finds two values. That nothing else is accepted is seen by counting. The
yard loses no operand and no operator, so items that evaluate have more operands than operators, and
items without juxtaposition have at most one more and only when they are an expression.
-/

namespace LineCalculator

/-- Expressions, by the grammar without precedence. -/
inductive Derives : List Item → Prop
  | operand {operand : Operand} (h : (Item.operand operand).isBinding = false) :
      Derives [.operand operand]
  | apply {left right : List Item} (hleft : Derives left) (operator : Operator)
      (hright : Derives right) :
      Derives (left ++ .symbol (.operator operator) :: right)
  | group {inner : List Item} (h : Derives inner) :
      Derives (.symbol .leftParen :: inner ++ [.symbol .rightParen])

/-- Whether items alternate as in an expression, `complete` telling that an operand or a group ends in front. -/
def alternates (complete : Bool) : List Item → Bool
  | [] => complete
  | .operand _ :: rest => !complete && alternates true rest
  | .symbol (.operator _) :: rest => complete && alternates false rest
  | .symbol .leftParen :: rest => !complete && alternates false rest
  | .symbol .rightParen :: rest => complete && alternates true rest

theorem Derives.alternates_append {items : List Item} (h : Derives items) (rest : List Item) :
    alternates false (items ++ rest) = alternates true rest := by
  induction h generalizing rest with
  | operand => rfl
  | @apply left right hleft operator hright ihleft ihright =>
    rw [List.append_assoc, ihleft]
    show alternates false (right ++ rest) = alternates true rest
    exact ihright rest
  | @group inner h ih =>
    rw [List.append_assoc]
    show alternates false (inner ++ .symbol .rightParen :: rest) = alternates true rest
    exact ih (.symbol .rightParen :: rest)

theorem Derives.closesAll_append {items : List Item} (h : Derives items) (depth : Nat)
    (rest : List Item) :
    closesAll depth (items ++ rest) = closesAll depth rest := by
  induction h generalizing depth rest with
  | operand => rfl
  | @apply left right hleft operator hright ihleft ihright =>
    rw [List.append_assoc, ihleft]
    show closesAll depth (right ++ rest) = closesAll depth rest
    exact ihright depth rest
  | @group inner h ih =>
    rw [List.append_assoc]
    show closesAll (depth + 1) (inner ++ .symbol .rightParen :: rest) = closesAll depth rest
    exact ih (depth + 1) (.symbol .rightParen :: rest)

/-! ### Alternating items that close evaluate -/

namespace Yard

/-- How many operators wait. -/
def pending (yard : Yard) : Nat :=
  (yard.waiting.map Item.symbol).countP Item.isOperator

/-- What has left the yard runs, and leaves a value for each waiting operator and for an operand in front. -/
structure Ready (yard : Yard) (complete : Bool) : Prop where
  separates : yard.Separates
  runs : ∃ machine, Machine.run {} yard.emitted.toList = .ok (machine, none) ∧
    machine.slots.length = yard.pending + complete.toNat

theorem ready_empty : Ready {} false :=
  ⟨separates_empty, {}, rfl, rfl⟩

theorem exists_ofOperators {symbols : List Symbol} (hopen : Symbol.leftParen ∉ symbols)
    (hclosed : Symbol.rightParen ∉ symbols) : ∃ operators, symbols = ofOperators operators := by
  induction symbols with
  | nil => exact ⟨[], rfl⟩
  | cons symbol symbols ih =>
    rw [List.mem_cons, not_or] at hopen hclosed
    obtain ⟨operators, rfl⟩ := ih hopen.2 hclosed.2
    cases symbol with
    | operator operator => exact ⟨operator :: operators, rfl⟩
    | leftParen => exact absurd rfl hopen.1
    | rightParen => exact absurd rfl hclosed.1

theorem countP_ofOperators (operators : List Operator) :
    ((ofOperators operators).map Item.symbol).countP Item.isOperator = operators.length := by
  rw [ofOperators, List.map_map]
  exact Item.countP_isOperator_ofOperators operators

theorem Ready.emit {yard : Yard} (h : yard.Ready true) {popped below : List Symbol}
    (hwaiting : yard.waiting = popped ++ below) (hopen : Symbol.leftParen ∉ popped) :
    ∃ machine, Machine.run {} (yard.emit popped).toList = .ok (machine, none) ∧
      machine.slots.length = (below.map Item.symbol).countP Item.isOperator + 1 := by
  have hclosed : Symbol.rightParen ∉ popped := by
    intro hmem
    apply h.separates.waiting
    rw [hwaiting]
    exact List.mem_append_left below hmem
  obtain ⟨operators, rfl⟩ := exists_ofOperators hopen hclosed
  obtain ⟨machine, hrun, hheight⟩ := h.runs
  rw [pending, hwaiting, List.map_append, List.countP_append, countP_ofOperators,
    Bool.toNat_true] at hheight
  have hlt : operators.length < machine.slots.length := by omega
  obtain ⟨next, hnext, hlength⟩ := Machine.exists_run_ofOperators machine hlt
  refine ⟨next, ?_, ?_⟩
  · rw [toList_emit_ofOperators, Machine.run_append_of_eq_ok hrun]
    exact hnext
  · omega

theorem Ready.addOperand {yard : Yard} (h : yard.Ready false) {operand : Operand}
    (hoperand : (Item.operand operand).isBinding = false) :
    Ready { yard with emitted := yard.emitted.push (.operand operand) } true := by
  obtain ⟨machine, hrun, hheight⟩ := h.runs
  refine ⟨h.separates.add (run_add_operand yard operand), machine.push operand.value, ?_, ?_⟩
  · rw [Array.toList_push, Machine.run_append_of_eq_ok hrun, Machine.run_operand hoperand]
    rfl
  · rw [Machine.push, List.length_cons, hheight]
    rfl

theorem Ready.addOperator {yard : Yard} (h : yard.Ready true) (operator : Operator) :
    (yard.addOperator operator).Ready false := by
  obtain ⟨machine, hrun, hheight⟩ := h.emit (List.takeWhile_append_dropWhile).symm
    (leftParen_not_mem_yields operator yard.waiting)
  refine ⟨h.separates.addOperator operator, machine, hrun, ?_⟩
  rw [hheight, pending, Yard.addOperator, List.map_cons, List.countP_cons_of_pos rfl]
  rfl

theorem Ready.open {yard : Yard} (h : yard.Ready false) :
    Ready { yard with waiting := .leftParen :: yard.waiting } false := by
  obtain ⟨machine, hrun, hheight⟩ := h.runs
  refine ⟨h.separates.add (run_add_leftParen yard), machine, hrun, ?_⟩
  rw [hheight, pending, pending, List.map_cons, List.countP_cons_of_neg (by simp [Item.isOperator])]

theorem Ready.close {yard : Yard} (h : yard.Ready true) (hmatched : yard.close.2 = true) :
    yard.close.1.Ready true := by
  obtain ⟨machine, hrun, hheight⟩ :=
    h.emit (waiting_of_close hmatched) (leftParen_not_mem_inside yard.waiting)
  refine ⟨h.separates.close, machine, hrun, ?_⟩
  rw [hheight, List.map_cons, List.countP_cons_of_neg (by simp [Item.isOperator]), pending]
  rfl

theorem Ready.addAll {items : List Item} {yard next : Yard} {complete : Bool}
    (h : yard.Ready complete)
    (hitems : ∀ item ∈ items, item.isBinding = false) (halternates : alternates complete items = true)
    (hadd : yard.addAll items = .ok () next) : next.Ready true := by
  induction items generalizing yard complete with
  | nil =>
    cases hadd
    rw [alternates] at halternates
    rwa [halternates] at h
  | cons item items ih =>
    have hrest : ∀ other ∈ items, other.isBinding = false := fun other hmem =>
      hitems other (List.mem_cons_of_mem item hmem)
    rw [addAll_cons] at hadd
    cases item with
    | operand operand =>
      simp only [alternates, Bool.and_eq_true, Bool.not_eq_true'] at halternates
      obtain ⟨rfl, halternates⟩ := halternates
      exact ih (h.addOperand (hitems _ List.mem_cons_self)) hrest halternates hadd
    | symbol symbol =>
      cases symbol with
      | operator operator =>
        simp only [alternates, Bool.and_eq_true] at halternates
        obtain ⟨rfl, halternates⟩ := halternates
        exact ih (h.addOperator operator) hrest halternates hadd
      | leftParen =>
        simp only [alternates, Bool.and_eq_true, Bool.not_eq_true'] at halternates
        obtain ⟨rfl, halternates⟩ := halternates
        exact ih h.open hrest halternates hadd
      | rightParen =>
        simp only [alternates, Bool.and_eq_true] at halternates
        obtain ⟨rfl, halternates⟩ := halternates
        rw [run_add_rightParen] at hadd
        by_cases hclose : yard.close.2 = true
        · rw [if_pos hclose] at hadd
          exact ih (h.close hclose) hrest halternates hadd
        · rw [if_neg hclose] at hadd
          cases hadd

end Yard

theorem exists_evaluateItems_of_alternates {items : List Item}
    (hitems : ∀ item ∈ items, item.isBinding = false)
    (halternates : alternates false items = true) (hcloses : closesAll 0 items = true) :
    ∃ evaluation, evaluateItems items = .ok evaluation := by
  obtain ⟨reordered, hreordered⟩ := (toPostfix_eq_ok_iff items).2 hcloses
  rw [evaluateItems, hreordered]
  obtain ⟨next, hadd, hopen, rfl⟩ := Yard.toPostfix_eq_ok hreordered
  have hready := Yard.ready_empty.addAll hitems halternates hadd
  obtain ⟨machine, hrun, -⟩ := hready.emit (List.append_nil _).symm hopen
  exact ⟨_, evaluate_of_run hrun⟩

/-! ### Items that evaluate are expressions -/

namespace Item

/-- Whether an operand or a group ends with an item. -/
def endsOperand : Item → Bool
  | operand _ | symbol .rightParen => true
  | _ => false

/-- Whether an operand or a group starts with an item. -/
def startsOperand : Item → Bool
  | operand _ | symbol .leftParen => true
  | _ => false

/-- Two operands or groups stand side by side. -/
def Juxtaposed (item next : Item) : Prop :=
  item.endsOperand = true ∧ next.startsOperand = true

theorem countP_terms {p : Item → Bool} (h : ∀ item, item.isParen = true → p item = false)
    (items : List Item) :
    (terms items).countP p = items.countP p := by
  rw [terms, List.countP_filter]
  refine List.countP_congr fun item _ => ?_
  cases hparen : item.isParen with
  | false => simp
  | true => simp [h item hparen]

theorem isOperand_of_isParen (item : Item) (h : item.isParen = true) : item.isOperand = false := by
  cases item with
  | operand operand => cases h
  | symbol symbol => rfl

theorem isOperator_of_isParen (item : Item) (h : item.isParen = true) :
    item.isOperator = false := by
  cases item with
  | operand operand => cases h
  | symbol symbol =>
    cases symbol with
    | operator operator => cases h
    | leftParen => rfl
    | rightParen => rfl

end Item

/-- Every operator of items that evaluate takes a value away, and one is left. -/
theorem countP_isOperator_lt_of_evaluateItems {items : List Item} {evaluation : Evaluation}
    (hitems : ∀ item ∈ items, item.isBinding = false) (hsome : ∃ item ∈ items, item.isOperand = true)
    (h : evaluateItems items = .ok evaluation) :
    items.countP Item.isOperator < items.countP Item.isOperand := by
  obtain ⟨reordered, hreordered, hevaluate⟩ := evaluateItems_eq_ok h
  have hperm := Yard.perm_toPostfix hreordered
  obtain ⟨machine, hrun⟩ := exists_run_of_evaluate (isBinding_of_toPostfix hreordered hitems) hevaluate
  have hoperand : ∃ item ∈ reordered, item.isOperand = true := by
    obtain ⟨item, hmem, hitem⟩ := hsome
    refine ⟨item, hperm.mem_iff.2 (List.mem_filter.2 ⟨hmem, ?_⟩), hitem⟩
    cases item with
    | operand operand => rfl
    | symbol symbol => cases hitem
  have hleft := List.length_pos_of_ne_nil (Machine.slots_ne_nil_of_run hrun (.inr hoperand))
  obtain ⟨-, hcount⟩ := Machine.run_eq_ok (isBinding_of_toPostfix hreordered hitems) hrun
  rw [hperm.countP_eq, hperm.countP_eq, Item.countP_terms Item.isOperator_of_isParen,
    Item.countP_terms Item.isOperand_of_isParen] at hcount
  simp only [List.length_nil, Nat.zero_add] at hcount
  omega

/-- At most one operand more than operators, and an expression if there is one more. -/
def CountsAlone (items : List Item) : Prop :=
  items.countP Item.isOperand ≤ items.countP Item.isOperator + 1 ∧
    (items.countP Item.isOperand = items.countP Item.isOperator + 1 → Derives items)

/-- No more operands than operators, and what goes on with an expression if there are as many. -/
def CountsBehind (items : List Item) : Prop :=
  items.countP Item.isOperand ≤ items.countP Item.isOperator ∧
    (items.countP Item.isOperand = items.countP Item.isOperator →
      ∀ left, Derives left → Derives (left ++ items))

theorem countsBehind_nil : CountsBehind [] := by
  refine ⟨Nat.le_refl 0, fun _ left hleft => ?_⟩
  rwa [List.append_nil]

theorem CountsBehind.alone {items : List Item} (h : CountsBehind items) : CountsAlone items :=
  ⟨Nat.le_succ_of_le h.1, fun hcount => absurd h.1 (by omega)⟩

theorem CountsBehind.operand {rest : List Item} (h : CountsBehind rest) {operand : Operand}
    (hoperand : (Item.operand operand).isBinding = false) :
    CountsAlone (.operand operand :: rest) := by
  obtain ⟨hle, hgoes⟩ := h
  rw [CountsAlone, List.countP_cons_of_pos rfl, List.countP_cons_of_neg (by simp [Item.isOperator])]
  refine ⟨by omega, fun hcount => ?_⟩
  exact hgoes (by omega) [.operand operand] (.operand hoperand)

theorem CountsAlone.operator {rest : List Item} (h : CountsAlone rest) (operator : Operator) :
    CountsBehind (.symbol (.operator operator) :: rest) := by
  obtain ⟨hle, hderives⟩ := h
  rw [CountsBehind, List.countP_cons_of_neg (by simp [Item.isOperand]), List.countP_cons_of_pos rfl]
  refine ⟨by omega, fun hcount left hleft => ?_⟩
  exact .apply hleft operator (hderives (by omega))

theorem CountsAlone.group {inner rest : List Item} (hinner : CountsAlone inner)
    (hrest : CountsBehind rest) :
    CountsAlone (.symbol .leftParen :: inner ++ .symbol .rightParen :: rest) := by
  obtain ⟨hle, hderives⟩ := hinner
  obtain ⟨hlerest, hgoes⟩ := hrest
  have hcounts : ∀ p : Item → Bool, p (.symbol .leftParen) = false →
      p (.symbol .rightParen) = false →
      (.symbol .leftParen :: inner ++ .symbol .rightParen :: rest).countP p =
        inner.countP p + rest.countP p := by
    intro p hopen hclosed
    rw [List.countP_append, List.countP_cons_of_neg (by simp [hopen]),
      List.countP_cons_of_neg (by simp [hclosed])]
  rw [CountsAlone, hcounts Item.isOperand rfl rfl, hcounts Item.isOperator rfl rfl]
  refine ⟨by omega, fun hcount => ?_⟩
  have hgroup := hgoes (by omega) _ (.group (hderives (by omega)))
  rwa [List.append_assoc] at hgroup

/-- Nested items without juxtaposition count as expressions do; those that no operand or group starts count as what stands behind one. -/
theorem Nested.counts {items : List Item} (h : Nested items)
    (hitems : ∀ item ∈ items, item.isBinding = false)
    (hapart : items.IsChain fun item next => ¬ item.Juxtaposed next) :
    CountsAlone items ∧
      ((∀ item ∈ items.head?, item.startsOperand = false) → CountsBehind items) := by
  induction h with
  | nil => exact ⟨countsBehind_nil.alone, fun _ => countsBehind_nil⟩
  | @term item rest hterm hrest ih =>
    obtain ⟨hnext, hchain⟩ := List.isChain_cons.1 hapart
    have hmemrest : ∀ other ∈ rest, other.isBinding = false := fun other hmem =>
      hitems other (List.mem_cons_of_mem item hmem)
    obtain ⟨halone, hbehind⟩ := ih hmemrest hchain
    cases item with
    | operand operand =>
      -- What follows an operand does not start with another, so it counts as standing behind it.
      have hrest := hbehind fun next hmem => by
        simpa [Item.Juxtaposed, Item.endsOperand] using hnext next hmem
      refine ⟨hrest.operand (hitems _ List.mem_cons_self), fun hhead => ?_⟩
      exact absurd (hhead _ rfl) (by simp [Item.startsOperand])
    | symbol symbol =>
      cases symbol with
      | operator operator =>
        exact ⟨(halone.operator operator).alone, fun _ => halone.operator operator⟩
      | leftParen => cases hterm
      | rightParen => cases hterm
  | @group inner rest hinner hrest ihinner ihrest =>
    rw [List.cons_append] at hapart
    have hafter := (List.isChain_cons.1 hapart).2
    obtain ⟨hnext, hchain⟩ := List.isChain_cons.1 (hafter.right_of_append)
    have hmeminner : ∀ item ∈ inner, item.isBinding = false := fun item hmem =>
      hitems item (List.mem_append_left _ (List.mem_cons_of_mem _ hmem))
    have hmemrest : ∀ item ∈ rest, item.isBinding = false := fun item hmem =>
      hitems item (List.mem_append_right _ (List.mem_cons_of_mem _ hmem))
    have halone := (ihinner hmeminner hafter.left_of_append).1
    have hbehind := (ihrest hmemrest hchain).2 fun next hmem => by
      simpa [Item.Juxtaposed, Item.endsOperand] using hnext next hmem
    refine ⟨halone.group hbehind, fun hhead => ?_⟩
    exact absurd (hhead _ rfl) (by simp [Item.startsOperand])

/-- Of the items with an operand and without juxtaposition, exactly the expressions have a value. -/
theorem evaluateItems_eq_ok_iff_derives {items : List Item}
    (hitems : ∀ item ∈ items, item.isBinding = false)
    (hsome : ∃ item ∈ items, item.isOperand = true)
    (hapart : items.IsChain fun item next => ¬ item.Juxtaposed next) :
    ((∃ evaluation, evaluateItems items = .ok evaluation) ↔ Derives items) ∧
      (¬ Derives items → evaluateItems items = .error .invalidExpression) := by
  have hiff : (∃ evaluation, evaluateItems items = .ok evaluation) ↔ Derives items := by
    constructor
    · intro ⟨evaluation, hevaluate⟩
      obtain ⟨reordered, hreordered, -⟩ := evaluateItems_eq_ok hevaluate
      have hnested := nested_of_closesAll ((toPostfix_eq_ok_iff items).1 ⟨reordered, hreordered⟩)
      have hlt := countP_isOperator_lt_of_evaluateItems hitems hsome hevaluate
      obtain ⟨hle, hderives⟩ := (hnested.counts hitems hapart).1
      exact hderives (by omega)
    · intro hderives
      have halternates := hderives.alternates_append []
      have hcloses := hderives.closesAll_append 0 []
      rw [List.append_nil] at halternates hcloses
      exact exists_evaluateItems_of_alternates hitems halternates hcloses
  refine ⟨hiff, fun hnot => ?_⟩
  cases hevaluate : evaluateItems items with
  | error failure => rw [evaluateItems_eq_error hevaluate]
  | ok evaluation => exact absurd (hiff.1 ⟨evaluation, hevaluate⟩) hnot

theorem evaluateItems_signed_group :
    evaluateItems [.symbol .leftParen, .symbol (.operator .subtraction), .operand (.number 2),
      .symbol .rightParen] = .error .invalidExpression := by
  refine (evaluateItems_eq_ok_iff_derives ?_ ?_ ?_).2 ?_
  · simp [Item.isBinding]
  · simp [Item.isOperand]
  · simp [Item.Juxtaposed, Item.endsOperand, Item.startsOperand]
  · intro hderives
    have halternates := hderives.alternates_append []
    cases halternates

end LineCalculator
