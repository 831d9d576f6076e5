import LineCalculator.Proofs.Expression.Conservation
import Mathlib.Data.List.TakeWhile

/-!
# The trees of a run

Items that run without a failure are the postorder of a forest, whether or not they are the postfix
form of one expression. An operand is a tree of its own, an operator joins the two latest trees, and
the stack holds the values of the trees that are there, the latest on top. So the answer is the value
of the last tree, and what lies before that tree can make the run fail but not change its answer. A
postorder can be read backwards in one way, hence the last tree is told by the items alone. A run
fails where an operator finds less than two trees, which counting the items in front tells.
-/

namespace LineCalculator

/-! ### Expression trees -/

inductive Tree where
  | operand (operand : Operand) (h : (Item.operand operand).isBinding = false)
  | apply (operator : Operator) (left right : Tree)

namespace Tree

def postorder : Tree → List Item
  | operand o _ => [.operand o]
  | apply operator left right =>
    left.postorder ++ right.postorder ++ [.symbol (.operator operator)]

def value : Tree → Float
  | operand o _ => o.value
  | apply operator left right => operator.apply left.value right.value

theorem pushes_postorder (tree : Tree) : Machine.Pushes tree.value tree.postorder := by
  induction tree with
  | operand o h => exact Machine.pushes_operand h
  | apply operator left right ihleft ihright => exact ihleft.apply ihright operator

/-- Of two trees at the end of a text of items, the last item tells the root and the rest the branches. -/
theorem append_postorder_inj {tree other : Tree} {front before : List Item}
    (h : front ++ tree.postorder = before ++ other.postorder) : tree = other ∧ front = before := by
  induction tree generalizing other front before with
  | operand o hbinding =>
    cases other with
    | operand o' hbinding' =>
      obtain ⟨hfront, hlast⟩ := List.append_inj' h rfl
      cases hlast
      exact ⟨rfl, hfront⟩
    | apply operator left right =>
      simp only [postorder, ← List.append_assoc] at h
      obtain ⟨-, hlast⟩ := List.append_inj' h rfl
      cases hlast
  | apply operator left right ihleft ihright =>
    cases other with
    | operand o hbinding =>
      simp only [postorder, ← List.append_assoc] at h
      obtain ⟨-, hlast⟩ := List.append_inj' h rfl
      cases hlast
    | apply operator' left' right' =>
      simp only [postorder, ← List.append_assoc] at h
      obtain ⟨hbranches, hlast⟩ := List.append_inj' h rfl
      cases hlast
      obtain ⟨rfl, hleft⟩ := ihright hbranches
      obtain ⟨rfl, hfront⟩ := ihleft hleft
      exact ⟨rfl, hfront⟩

theorem eq_of_isSuffix {tree other : Tree} {items : List Item} (h : tree.postorder <:+ items)
    (hother : other.postorder <:+ items) : other = tree := by
  obtain ⟨front, rfl⟩ := h
  obtain ⟨before, heq⟩ := hother
  exact (append_postorder_inj heq).1

end Tree

/-! ### Forests -/

/-- The postorder of a forest whose latest tree comes first. -/
def forestPostorder : List Tree → List Item
  | [] => []
  | tree :: below => forestPostorder below ++ tree.postorder

namespace Machine

/-- The machine after a run over a forest. -/
def ofForest (forest : List Tree) : Machine where
  slots := forest.map Tree.value
  result := (forest.head?.map Tree.value).getD 0.0

theorem push_ofForest (forest : List Tree) {operand : Operand}
    (h : (Item.operand operand).isBinding = false) :
    (ofForest forest).push operand.value = ofForest (.operand operand h :: forest) :=
  rfl

theorem apply_ofForest {forest : List Tree} {operator : Operator} {next : Machine}
    (h : (ofForest forest).apply operator = .ok next) :
    ∃ left right below, forest = right :: left :: below ∧
      next = ofForest (.apply operator left right :: below) := by
  match forest with
  | [] => cases h
  | [_] => cases h
  | right :: left :: below =>
    cases h
    exact ⟨left, right, below, rfl, rfl⟩

/-- A run lets the forest grow by the items that it meets. -/
theorem exists_forest_of_run {items : List Item} {forest : List Tree} {next : Machine}
    (h : (ofForest forest).run items = .ok (next, none)) :
    ∃ grown, next = ofForest grown ∧ forestPostorder grown = forestPostorder forest ++ items := by
  induction items generalizing forest with
  | nil =>
    cases h
    exact ⟨forest, rfl, (List.append_nil _).symm⟩
  | cons item items ih =>
    cases item with
    | operand operand =>
      cases hbinding : (Item.operand operand).isBinding with
      | true =>
        cases operand with
        | number value => cases hbinding
        | reference name value => cases hbinding
        | binding name value => cases h
      | false =>
        rw [run_operand hbinding, push_ofForest forest hbinding] at h
        obtain ⟨grown, hnext, hpostorder⟩ := ih h
        refine ⟨grown, hnext, ?_⟩
        rw [hpostorder, forestPostorder, Tree.postorder, List.append_assoc, List.singleton_append]
    | symbol symbol =>
      cases symbol with
      | operator operator =>
        rw [run_operator] at h
        obtain ⟨after, happly, hafter⟩ := bind_eq_ok_iff.1 h
        obtain ⟨left, right, below, rfl, rfl⟩ := apply_ofForest happly
        obtain ⟨grown, hnext, hpostorder⟩ := ih hafter
        refine ⟨grown, hnext, ?_⟩
        -- The two branches stand at the end of the forest already, in the order of the new tree.
        rw [hpostorder]
        simp [forestPostorder, Tree.postorder]
      | leftParen => cases h
      | rightParen => cases h

end Machine

/-! ### Where a run fails -/

/-- A parenthesis among items, or an operator that finds less than two values when the items start on a stack of the given height. -/
def StallsFrom (height : Nat) (items : List Item) : Prop :=
  (∃ item ∈ items, item.isParen = true) ∨
    ∃ front operator rest, items = front ++ .symbol (.operator operator) :: rest ∧
      height + front.countP Item.isOperand < front.countP Item.isOperator + 2

theorem not_stallsFrom_nil (height : Nat) : ¬ StallsFrom height [] := by
  rintro (⟨item, hmem, -⟩ | ⟨front, operator, rest, hsplit, -⟩)
  · cases hmem
  · simp at hsplit

theorem stallsFrom_operand (height : Nat) (operand : Operand) (items : List Item) :
    StallsFrom height (.operand operand :: items) ↔ StallsFrom (height + 1) items := by
  constructor
  · rintro (⟨item, hmem, hparen⟩ | ⟨front, operator, rest, hsplit, hcount⟩)
    · rcases List.mem_cons.1 hmem with rfl | hmem
      · cases hparen
      · exact .inl ⟨item, hmem, hparen⟩
    · obtain ⟨-, hfirst⟩ | ⟨front, rfl, rfl⟩ := List.cons_eq_append_iff.1 hsplit
      · cases hfirst
      · rw [List.countP_cons_of_pos rfl, List.countP_cons_of_neg (by simp [Item.isOperator])] at hcount
        exact .inr ⟨front, operator, rest, rfl, by omega⟩
  · rintro (⟨item, hmem, hparen⟩ | ⟨front, operator, rest, rfl, hcount⟩)
    · exact .inl ⟨item, List.mem_cons_of_mem _ hmem, hparen⟩
    · refine .inr ⟨.operand operand :: front, operator, rest, rfl, ?_⟩
      rw [List.countP_cons_of_pos rfl, List.countP_cons_of_neg (by simp [Item.isOperator])]
      omega

theorem stallsFrom_operator (height : Nat) (operator : Operator) (items : List Item) :
    StallsFrom height (.symbol (.operator operator) :: items) ↔
      height < 2 ∨ StallsFrom (height - 1) items := by
  constructor
  · rintro (⟨item, hmem, hparen⟩ | ⟨front, found, rest, hsplit, hcount⟩)
    · rcases List.mem_cons.1 hmem with rfl | hmem
      · cases hparen
      · exact .inr (.inl ⟨item, hmem, hparen⟩)
    · obtain ⟨rfl, -⟩ | ⟨front, rfl, rfl⟩ := List.cons_eq_append_iff.1 hsplit
      · exact .inl hcount
      · rw [List.countP_cons_of_neg (by simp [Item.isOperand]), List.countP_cons_of_pos rfl] at hcount
        by_cases hheight : height < 2
        · exact .inl hheight
        · exact .inr (.inr ⟨front, found, rest, rfl, by omega⟩)
  · rintro (hheight | ⟨item, hmem, hparen⟩ | ⟨front, found, rest, rfl, hcount⟩)
    · exact .inr ⟨[], operator, items, rfl, hheight⟩
    · exact .inl ⟨item, List.mem_cons_of_mem _ hmem, hparen⟩
    · refine .inr ⟨.symbol (.operator operator) :: front, found, rest, rfl, ?_⟩
      rw [List.countP_cons_of_neg (by simp [Item.isOperand]), List.countP_cons_of_pos rfl]
      omega

theorem stallsFrom_paren (height : Nat) {item : Item} (h : item.isParen = true)
    (items : List Item) : StallsFrom height (item :: items) :=
  .inl ⟨item, List.mem_cons_self, h⟩

namespace Machine

theorem apply_eq_error_iff (machine : Machine) (operator : Operator) :
    (∃ failure, machine.apply operator = .error failure) ↔ machine.slots.length < 2 := by
  constructor
  · rintro ⟨failure, hfailure⟩
    by_contra hheight
    obtain ⟨next, hnext⟩ := exists_apply_eq_ok machine operator (by omega)
    rw [hfailure] at hnext
    cases hnext
  · intro hheight
    cases happly : machine.apply operator with
    | error failure => exact ⟨failure, rfl⟩
    | ok next =>
      have hlower := apply_eq_ok happly
      have hne := List.length_pos_of_ne_nil (slots_ne_nil_of_apply happly)
      omega

theorem run_eq_error_iff {items : List Item} (h : ∀ item ∈ items, item.isBinding = false)
    (machine : Machine) :
    (∃ failure, machine.run items = .error failure) ↔ StallsFrom machine.slots.length items := by
  induction items generalizing machine with
  | nil =>
    refine iff_of_false ?_ (not_stallsFrom_nil _)
    rintro ⟨failure, hfailure⟩
    cases hfailure
  | cons item items ih =>
    have hitems : ∀ other ∈ items, other.isBinding = false := fun other hmem =>
      h other (List.mem_cons_of_mem item hmem)
    cases item with
    | operand operand =>
      rw [run_operand (h _ List.mem_cons_self), ih hitems, stallsFrom_operand]
      rfl
    | symbol symbol =>
      cases symbol with
      | operator operator =>
        rw [run_operator, stallsFrom_operator, ← apply_eq_error_iff machine operator]
        cases happly : machine.apply operator with
        | error failure => exact iff_of_true ⟨failure, rfl⟩ (.inl ⟨failure, rfl⟩)
        | ok next =>
          have hlower := apply_eq_ok happly
          have hnext := ih hitems next
          rw [show next.slots.length = machine.slots.length - 1 by omega] at hnext
          change (∃ failure, next.run items = .error failure) ↔ _
          rw [hnext]
          simp
      | leftParen => exact iff_of_true ⟨_, rfl⟩ (stallsFrom_paren _ rfl items)
      | rightParen => exact iff_of_true ⟨_, rfl⟩ (stallsFrom_paren _ rfl items)

end Machine

/-! ### Up to the first binding -/

/-- What an item binds, if it is the outcome of an assignment. -/
def Item.binding? : Item → Option (Text × Float)
  | operand (.binding name value) => some (name, value)
  | _ => none

/-- The items in front of the first binding. -/
def beforeBinding (items : List Item) : List Item :=
  items.takeWhile fun item => !item.isBinding

theorem not_isBinding_beforeBinding (items : List Item) :
    ∀ item ∈ beforeBinding items, item.isBinding = false := by
  intro item hmem
  simpa using mem_takeWhile hmem

/-- A run goes through the items in front of the first binding and ends with it. -/
theorem Machine.run_eq_bind (machine : Machine) (items : List Item) :
    machine.run items = do
      let (reached, _) ← machine.run (beforeBinding items)
      return (reached, items.findSome? Item.binding?) := by
  induction items generalizing machine with
  | nil => rfl
  | cons item items ih =>
    cases item with
    | operand operand =>
      cases operand with
      | number value => exact ih (machine.push value)
      | reference name value => exact ih (machine.push value)
      | binding name value => rfl
    | symbol symbol =>
      cases symbol with
      | operator operator =>
        rw [run_operator]
        change _ = (machine.apply operator >>= fun next => next.run (beforeBinding items)) >>= _
        cases machine.apply operator with
        | error failure => rfl
        | ok next => exact ih next
      | leftParen => rfl
      | rightParen => rfl

theorem beforeBinding_eq_self {items : List Item} (h : items.findSome? Item.binding? = none) :
    beforeBinding items = items := by
  refine List.takeWhile_eq_self_iff.2 fun item hmem => ?_
  have hnone := List.findSome?_eq_none_iff.1 h item hmem
  cases item with
  | operand operand =>
    cases operand with
    | number value => rfl
    | reference name value => rfl
    | binding name value => cases hnone
  | symbol symbol => rfl

/-! ### The last tree -/

variable {items : List Item}

theorem exists_run_beforeBinding (h : ¬ StallsFrom 0 (beforeBinding items)) :
    ∃ machine, Machine.run {} (beforeBinding items) = .ok (machine, none) := by
  have hbinding := not_isBinding_beforeBinding items
  cases hrun : Machine.run {} (beforeBinding items) with
  | error failure => exact absurd ((Machine.run_eq_error_iff hbinding {}).1 ⟨failure, hrun⟩) h
  | ok reached =>
    obtain ⟨machine, bound⟩ := reached
    obtain ⟨rfl, -⟩ := Machine.run_eq_ok hbinding hrun
    exact ⟨machine, rfl⟩

theorem evaluate_eq_error_iff (items : List Item) :
    evaluate items = .error .invalidExpression ↔ StallsFrom 0 (beforeBinding items) := by
  constructor
  · intro hfailed
    by_contra hstalls
    obtain ⟨machine, hrun⟩ := exists_run_beforeBinding hstalls
    rw [evaluate, Machine.run_eq_bind, hrun] at hfailed
    cases hbound : items.findSome? Item.binding? with
    | none =>
      rw [hbound] at hfailed
      cases hfailed
    | some bound =>
      rw [hbound] at hfailed
      cases hfailed
  · intro hstalls
    obtain ⟨failure, hrun⟩ := (Machine.run_eq_error_iff (not_isBinding_beforeBinding items) {}).2 hstalls
    obtain rfl := Machine.run_eq_error hrun
    rw [evaluate, Machine.run_eq_bind, hrun]
    rfl

theorem evaluate_of_binding (h : ¬ StallsFrom 0 (beforeBinding items)) {name : Text} {value : Float}
    (hbound : items.findSome? Item.binding? = some (name, value)) :
    evaluate items = .ok (.binding name value) := by
  obtain ⟨machine, hrun⟩ := exists_run_beforeBinding h
  rw [evaluate, Machine.run_eq_bind, hrun, hbound]
  rfl

/-- The items answer the value of a tree that stands at their end. -/
structure AnswersTree (items : List Item) (tree : Tree) : Prop where
  isSuffix : tree.postorder <:+ items
  unique : ∀ other : Tree, other.postorder <:+ items → other = tree
  answer : evaluate items = .ok (.value tree.value)
  /-- The tree answers the same behind any other items that have an answer. -/
  alone : ∀ front, (∃ value, evaluate front = .ok (.value value)) →
    evaluate (front ++ tree.postorder) = .ok (.value tree.value)
  /-- The last value pushed is on top of the stack, and as many values are left as there are more operands than operators. -/
  stack : ∃ machine, Machine.run {} items = .ok (machine, none) ∧
    machine.result = tree.value ∧ machine.slots.head? = some tree.value ∧
    machine.slots.length + items.countP Item.isOperator = items.countP Item.isOperand

theorem Tree.evaluate_append_postorder (tree : Tree) {front : List Item}
    (h : ∃ value, evaluate front = .ok (.value value)) :
    evaluate (front ++ tree.postorder) = .ok (.value tree.value) := by
  obtain ⟨value, hvalue⟩ := h
  obtain ⟨⟨machine, bound⟩, hrun, hresult⟩ := bind_eq_ok_iff.1 hvalue
  cases bound with
  | some found => cases hresult
  | none =>
    have hpushes := tree.pushes_postorder machine []
    rw [List.append_nil] at hpushes
    have hwhole : Machine.run {} (front ++ tree.postorder) = .ok (machine.push tree.value, none) := by
      rw [Machine.run_append_of_eq_ok hrun, hpushes]
      rfl
    exact evaluate_of_run hwhole

theorem exists_answersTree (hbound : items.findSome? Item.binding? = none)
    (h : ¬ StallsFrom 0 items) (hne : items ≠ []) : ∃ tree, AnswersTree items tree := by
  rw [← beforeBinding_eq_self hbound] at h
  have hbinding := not_isBinding_beforeBinding items
  obtain ⟨machine, hrun⟩ := exists_run_beforeBinding h
  rw [beforeBinding_eq_self hbound] at hrun hbinding
  obtain ⟨forest, rfl, hforest⟩ := @Machine.exists_forest_of_run _ [] _ hrun
  cases forest with
  | nil => exact absurd hforest.symm hne
  | cons tree below =>
    have hsuffix : tree.postorder <:+ items := ⟨forestPostorder below, hforest⟩
    obtain ⟨-, hcount⟩ := Machine.run_eq_ok hbinding hrun
    rw [List.length_nil, Nat.zero_add] at hcount
    exact ⟨tree, hsuffix, fun _ => Tree.eq_of_isSuffix hsuffix, evaluate_of_run hrun,
      fun _ => tree.evaluate_append_postorder, _, hrun, rfl, rfl, hcount⟩

/-- Items fail where they stall, end at their first binding, and otherwise answer their last tree. -/
theorem evaluate_answers_last_tree (items : List Item) :
    (evaluate items = .error .invalidExpression ↔ StallsFrom 0 (beforeBinding items)) ∧
      (¬ StallsFrom 0 (beforeBinding items) →
        (∀ name value, items.findSome? Item.binding? = some (name, value) →
          evaluate items = .ok (.binding name value)) ∧
        (items.findSome? Item.binding? = none →
          (items = [] → evaluate items = .ok (.value 0.0)) ∧
          (items ≠ [] → ∃ tree, AnswersTree items tree))) := by
  refine ⟨evaluate_eq_error_iff items, fun hstalls => ⟨fun name value => ?_, fun hbound => ⟨?_, ?_⟩⟩⟩
  · exact evaluate_of_binding hstalls
  · rintro rfl
    rfl
  · rw [beforeBinding_eq_self hbound] at hstalls
    exact exists_answersTree hbound hstalls

/-- Two operands are left below the sum of the last two. -/
theorem evaluate_answers_last_tree_unused :
    evaluate [.operand (.number 2), .operand (.number 3), .operand (.number 4),
      .symbol (.operator .addition)] = .ok (.value (Operator.addition.apply 3 4)) := by
  have hstalls : ¬ StallsFrom 0 (beforeBinding [.operand (.number 2), .operand (.number 3),
      .operand (.number 4), .symbol (.operator .addition)]) := by
    change ¬ StallsFrom 0 [.operand (.number 2), .operand (.number 3), .operand (.number 4),
      .symbol (.operator .addition)]
    simp only [stallsFrom_operand, stallsFrom_operator, not_stallsFrom_nil]
    decide
  obtain ⟨tree, htree⟩ := (((evaluate_answers_last_tree _).2 hstalls).2 rfl).2 (by simp)
  have hlast := htree.unique (.apply .addition (.operand (.number 3) rfl) (.operand (.number 4) rfl))
    ⟨[.operand (.number 2)], rfl⟩
  subst hlast
  exact htree.answer

end LineCalculator
