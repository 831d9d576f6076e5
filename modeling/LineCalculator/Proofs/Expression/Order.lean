import LineCalculator.Proofs.Expression.Groups
import Mathlib.Data.List.Perm.Basic

/-!
# The order of postfix items

The yard is followed together with the positions of all that it holds. Once that many items are in,
the positions of what has left followed by those of the waiting operators are in the order in which
everything would leave if nothing more came, and a new item takes its place behind what has left. So
all that has to be known is which operators an item calls out. The stack tells it: its parentheses
are those that are open, and between two of them wait operators of one group, each binding closer
than the one below.
-/

namespace LineCalculator

variable {items : List Item}

/-! ### Which item calls out which -/

def IsOperandAt (items : List Item) (position : Nat) : Prop :=
  ∃ operand, items[position]? = some (.operand operand)

/-- An operand or an operator stands there. -/
def IsTermAt (items : List Item) (position : Nat) : Prop :=
  ∃ item, items[position]? = some item ∧ item.isParen = false

/-- What stands at `caller` closes the innermost group of the position, or is an operator of this group that binds no closer than the one at the position. -/
def CallsOut (items : List Item) (caller position : Nat) : Prop :=
  (items[caller]? = some (.symbol .rightParen) ∧
    ∃ opening, Opens items opening position ∧ Opens items opening caller) ∨
  ∃ operator waiting, items[caller]? = some (.symbol (.operator operator)) ∧
    items[position]? = some (.symbol (.operator waiting)) ∧ SameGroup items position caller ∧
    operator.precedence ≤ waiting.precedence

/-- Something behind the position, up to `last`, calls the operator there out. -/
def CalledBy (items : List Item) (last position : Nat) : Prop :=
  ∃ caller, position < caller ∧ caller ≤ last ∧ CallsOut items caller position

/-- What stands there has left the yard when `count` items are in. -/
def Gone (items : List Item) (count position : Nat) : Prop :=
  IsOperandAt items position ∨
    ∃ caller, position < caller ∧ caller < count ∧ CallsOut items caller position

/-- What stands at the one position leaves the yard before what stands at the other. -/
def Precedes (items : List Item) (left right : Nat) : Prop :=
  left < right ∧ Gone items (right + 1) left ∨ right < left ∧ ¬ Gone items (left + 1) right

theorem not_isTermAt {item : Item} {position : Nat} (h : items[position]? = some item)
    (hparen : item.isParen = true) : ¬ IsTermAt items position := by
  rintro ⟨other, hother, hterm⟩
  obtain rfl := Option.some.inj (h.symm.trans hother)
  rw [hparen] at hterm
  cases hterm

theorem not_callsOut {item : Item} {caller : Nat} (h : items[caller]? = some item)
    (hclosing : item ≠ .symbol .rightParen) (hoperator : item.isOperator = false) (position : Nat) :
    ¬ CallsOut items caller position := by
  rintro (⟨hparen, -⟩ | ⟨operator, waiting, hcaller, -⟩)
  · exact hclosing (Option.some.inj (h.symm.trans hparen))
  · obtain rfl := Option.some.inj (h.symm.trans hcaller)
    cases hoperator

theorem gone_succ_iff {last position : Nat} :
    Gone items (last + 1) position ↔ IsOperandAt items position ∨ CalledBy items last position := by
  simp only [Gone, CalledBy, Nat.lt_succ_iff]

theorem Gone.succ {count position : Nat} (h : Gone items count position) :
    Gone items (count + 1) position := by
  rcases h with h | ⟨caller, hlt, hcount, hcalls⟩
  · exact .inl h
  · exact .inr ⟨caller, hlt, Nat.lt_succ_of_lt hcount, hcalls⟩

theorem gone_of_callsOut {count position : Nat} (hlt : position < count)
    (h : CallsOut items count position) : Gone items (count + 1) position :=
  .inr ⟨count, hlt, Nat.lt_succ_self count, h⟩

theorem not_gone_succ {count position : Nat} (h : ¬ Gone items count position)
    (hcalls : ¬ CallsOut items count position) : ¬ Gone items (count + 1) position := by
  rintro (hoperand | ⟨caller, hlt, hcount, hcaller⟩)
  · exact h (.inl hoperand)
  · rcases Nat.lt_succ_iff_lt_or_eq.1 hcount with hless | rfl
    · exact h (.inr ⟨caller, hlt, hless, hcaller⟩)
    · exact hcalls hcaller

theorem Precedes.ne {left right : Nat} (h : Precedes items left right) : left ≠ right := by
  rcases h with ⟨hlt, -⟩ | ⟨hlt, -⟩ <;> omega

theorem Precedes.asymm {left right : Nat} (h : Precedes items left right) :
    ¬ Precedes items right left := by
  rcases h with ⟨hlt, hgone⟩ | ⟨hlt, hgone⟩ <;> rintro (⟨hlt', hgone'⟩ | ⟨hlt', hgone'⟩)
  · omega
  · exact hgone' hgone
  · exact hgone hgone'
  · omega

/-! ### Positions of what has left and of what waits -/

/-- The positions after a number of items: every term is in, and all stand in the order in which they leave. -/
structure Settled (items : List Item) (count : Nat) (left waits : List Nat) : Prop where
  mem : ∀ position, position ∈ left ++ waits ↔ position < count ∧ IsTermAt items position
  gone : ∀ position ∈ left, Gone items count position
  waiting : ∀ position ∈ waits, ¬ Gone items count position
  order : (left ++ waits).Pairwise (Precedes items)

section

variable {count : Nat} {left called rest : List Nat}

theorem settled_nil (items : List Item) : Settled items 0 [] [] where
  mem := by simp
  gone := by simp
  waiting := by simp
  order := .nil

/-- What the next item calls out leaves, and all other positions keep their place. -/
theorem Settled.call (h : Settled items count left (called ++ rest))
    (hcalled : ∀ position ∈ called, CallsOut items count position)
    (hrest : ∀ position ∈ rest, ¬ CallsOut items count position) :
    (∀ position ∈ left ++ called, position < count ∧ Gone items (count + 1) position) ∧
      (∀ position ∈ rest, position < count ∧ ¬ Gone items (count + 1) position) := by
  have hlt : ∀ position ∈ left ++ (called ++ rest), position < count := fun position hmem =>
    ((h.mem position).1 hmem).1
  refine ⟨fun position hmem => ?_, fun position hmem => ?_⟩
  · have hwithin : position < count := by
      apply hlt
      rw [← List.append_assoc]
      exact List.mem_append_left rest hmem
    refine ⟨hwithin, ?_⟩
    rcases List.mem_append.1 hmem with hleft | hcall
    · exact (h.gone position hleft).succ
    · exact gone_of_callsOut hwithin (hcalled position hcall)
  · refine ⟨hlt position (by simp [hmem]), ?_⟩
    exact not_gone_succ (h.waiting position (List.mem_append_right called hmem)) (hrest position hmem)

theorem Settled.paren (h : Settled items count left (called ++ rest))
    (hcalled : ∀ position ∈ called, CallsOut items count position)
    (hrest : ∀ position ∈ rest, ¬ CallsOut items count position)
    (hparen : ¬ IsTermAt items count) : Settled items (count + 1) (left ++ called) rest := by
  obtain ⟨hgone, hwaits⟩ := h.call hcalled hrest
  refine ⟨fun position => ?_, fun position hmem => (hgone position hmem).2,
    fun position hmem => (hwaits position hmem).2, ?_⟩
  · rw [List.append_assoc, h.mem, Nat.lt_succ_iff_lt_or_eq]
    constructor
    · rintro ⟨hlt, hterm⟩
      exact ⟨.inl hlt, hterm⟩
    · rintro ⟨hlt | rfl, hterm⟩
      · exact ⟨hlt, hterm⟩
      · exact absurd hterm hparen
  · rw [List.append_assoc]
    exact h.order

/-- A term takes its place behind what has left and in front of what waits on. -/
theorem Settled.term (h : Settled items count left (called ++ rest))
    (hcalled : ∀ position ∈ called, CallsOut items count position)
    (hrest : ∀ position ∈ rest, ¬ CallsOut items count position)
    (hterm : IsTermAt items count) :
    (∀ position, position ∈ left ++ called ++ count :: rest ↔
        position < count + 1 ∧ IsTermAt items position) ∧
      (left ++ called ++ count :: rest).Pairwise (Precedes items) := by
  obtain ⟨hgone, hwaits⟩ := h.call hcalled hrest
  have horder := h.order
  rw [← List.append_assoc, List.pairwise_append] at horder
  refine ⟨fun position => ?_, ?_⟩
  · have hmem := h.mem position
    rw [← List.append_assoc, List.mem_append] at hmem
    rw [List.mem_append, List.mem_cons, Nat.lt_succ_iff_lt_or_eq, or_left_comm, hmem]
    constructor
    · rintro (rfl | ⟨hlt, hposition⟩)
      · exact ⟨.inr rfl, hterm⟩
      · exact ⟨.inl hlt, hposition⟩
    · rintro ⟨hlt | rfl, hposition⟩
      · exact .inr ⟨hlt, hposition⟩
      · exact .inl rfl
  · refine List.pairwise_append.2 ⟨horder.1, List.pairwise_cons.2 ⟨?_, horder.2.1⟩, ?_⟩
    · intro position hmem
      exact .inr (hwaits position hmem)
    · intro position hmem other hother
      -- What has left is in front of the new term too, and keeps its place before what waits on.
      rcases List.mem_cons.1 hother with rfl | hother
      · exact .inl (hgone position hmem)
      · exact horder.2.2 position hmem other hother

/-- An operand leaves at once. -/
theorem Settled.operand (h : Settled items count left rest)
    (hrest : ∀ position ∈ rest, ¬ CallsOut items count position) (hoperand : IsOperandAt items count) :
    Settled items (count + 1) (left ++ [count]) rest := by
  have hterm : IsTermAt items count := by
    obtain ⟨operand, hitem⟩ := hoperand
    exact ⟨.operand operand, hitem, rfl⟩
  have hnone : ∀ position ∈ ([] : List Nat), CallsOut items count position := by simp
  obtain ⟨hgone, hwaits⟩ := h.call hnone hrest
  obtain ⟨hmem, horder⟩ := h.term hnone hrest hterm
  rw [List.append_nil] at hgone hmem horder
  rw [← List.singleton_append, ← List.append_assoc] at horder
  refine ⟨fun position => ?_, fun position hposition => ?_,
    fun position hposition => (hwaits position hposition).2, horder⟩
  · rw [List.append_assoc, List.singleton_append, hmem]
  · rcases List.mem_append.1 hposition with hleft | hcount
    · exact (hgone position hleft).2
    · obtain rfl := List.mem_singleton.1 hcount
      exact .inl hoperand

/-- An operator waits until it is called out. -/
theorem Settled.operator (h : Settled items count left (called ++ rest))
    (hcalled : ∀ position ∈ called, CallsOut items count position)
    (hrest : ∀ position ∈ rest, ¬ CallsOut items count position) {operator : Operator}
    (hitem : items[count]? = some (.symbol (.operator operator))) :
    Settled items (count + 1) (left ++ called) (count :: rest) := by
  obtain ⟨hgone, hwaits⟩ := h.call hcalled hrest
  obtain ⟨hmem, horder⟩ := h.term hcalled hrest ⟨_, hitem, rfl⟩
  refine ⟨hmem, fun position hposition => (hgone position hposition).2,
    fun position hposition => ?_, horder⟩
  rcases List.mem_cons.1 hposition with rfl | hposition
  · rintro (⟨operand, hoperand⟩ | ⟨caller, hlt, hcaller, -⟩)
    · rw [hitem] at hoperand
      cases hoperand
    · omega
  · exact (hwaits position hposition).2

end

/-! ### The stack -/

/-- The stack with `position` coming next: its parentheses open the groups that hold the position, and between two of them wait operators of one group, each binding closer than the one below. -/
inductive Grouped (items : List Item) : Nat → List (Nat × Symbol) → Prop
  | outside {position : Nat} (h : ∀ opening, ¬ Opens items opening position) : Grouped items position []
  | paren {position opening : Nat} {below : List (Nat × Symbol)} (hopens : Opens items opening position)
      (hbelow : Grouped items opening below) : Grouped items position ((opening, .leftParen) :: below)
  | operator {position waits : Nat} {operator : Operator} {below : List (Nat × Symbol)}
      (hlt : waits < position) (hsame : SameGroup items waits position)
      (hcloser : ∀ entry ∈ below.head?, entry.2.precedence < operator.precedence)
      (hbelow : Grouped items waits below) : Grouped items position ((waits, .operator operator) :: below)

section

variable {position other : Nat} {stack popped below : List (Nat × Symbol)}

theorem SameGroup.symm (h : SameGroup items position other) : SameGroup items other position :=
  fun opening => (h opening).symm

theorem SameGroup.trans {third : Nat} (h : SameGroup items position other)
    (hnext : SameGroup items other third) : SameGroup items position third :=
  fun opening => (h opening).trans (hnext opening)

theorem Grouped.lt (h : Grouped items position stack) : ∀ entry ∈ stack, entry.1 < position := by
  induction h with
  | outside => simp
  | paren hopens hbelow ih =>
    intro entry hmem
    rcases List.mem_cons.1 hmem with rfl | hmem
    · exact hopens.lt
    · exact (ih entry hmem).trans hopens.lt
  | operator hlt hsame hcloser hbelow ih =>
    intro entry hmem
    rcases List.mem_cons.1 hmem with rfl | hmem
    · exact hlt
    · exact (ih entry hmem).trans hlt

theorem Grouped.congr (h : Grouped items position stack) (hsame : SameGroup items position other)
    (hle : position ≤ other) : Grouped items other stack := by
  cases h with
  | outside h => exact .outside fun opening hopens => h opening ((hsame opening).2 hopens)
  | paren hopens hbelow => exact .paren ((hsame _).1 hopens) hbelow
  | operator hlt hwaits hcloser hbelow =>
    exact .operator (Nat.lt_of_lt_of_le hlt hle) (hwaits.trans hsame) hcloser hbelow

theorem Grouped.of_append (h : Grouped items position (popped ++ below))
    (hpopped : ∀ entry ∈ popped, entry.2 ≠ .leftParen) :
    Grouped items position below ∧
      ∀ entry ∈ popped, ∃ operator, entry.2 = .operator operator ∧ SameGroup items entry.1 position := by
  induction popped generalizing position with
  | nil => exact ⟨h, by simp⟩
  | cons entry popped ih =>
    have hrest : ∀ other ∈ popped, other.2 ≠ .leftParen := fun other hmem =>
      hpopped other (List.mem_cons_of_mem entry hmem)
    cases h with
    | paren hopens hbelow => exact absurd rfl (hpopped _ List.mem_cons_self)
    | operator hlt hsame hcloser hbelow =>
      obtain ⟨hgrouped, hoperators⟩ := ih hbelow hrest
      refine ⟨hgrouped.congr hsame hlt.le, fun other hmem => ?_⟩
      rcases List.mem_cons.1 hmem with rfl | hmem
      · exact ⟨_, rfl, hsame⟩
      · obtain ⟨operator, hother, hgroup⟩ := hoperators other hmem
        exact ⟨operator, hother, hgroup.trans hsame⟩

theorem Grouped.not_opens {opening : Nat} (hbelow : Grouped items opening below)
    {entry : Nat × Symbol} (hmem : entry ∈ below) :
    ¬ Opens items opening entry.1 := by
  intro hopens
  have hlt := hbelow.lt entry hmem
  have hgt := hopens.lt
  omega

/-- If the top of a stack binds looser than some precedence, then so does all of the position's group. -/
theorem Grouped.looser (h : Grouped items position stack) {precedence : Nat}
    (htop : ∀ entry ∈ stack.head?, entry.2.precedence < precedence) {entry : Nat × Symbol}
    (hmem : entry ∈ stack) (hsame : SameGroup items entry.1 position) :
    entry.2.precedence < precedence := by
  induction h generalizing precedence with
  | outside => cases hmem
  | @paren position opening below hopens hbelow ih =>
    rcases List.mem_cons.1 hmem with rfl | hmem
    · exact htop _ rfl
    · -- What lies below stands in front of the parenthesis, so it is not in the group it opens.
      exact absurd ((hsame opening).2 hopens) (hbelow.not_opens hmem)
  | @operator position waits operator below hlt hwaits hcloser hbelow ih =>
    rcases List.mem_cons.1 hmem with rfl | hmem
    · exact htop _ rfl
    · exact (ih hcloser hmem (hsame.trans hwaits.symm)).trans (htop _ rfl)

end

/-! ### The yard -/

/-- The positions of the operators on a stack. -/
def pendingAt (stack : List (Nat × Symbol)) : List Nat :=
  (stack.filter fun entry => entry.2 != .leftParen).map Prod.fst

theorem exists_of_mem_pendingAt {stack : List (Nat × Symbol)} {position : Nat}
    (h : position ∈ pendingAt stack) : ∃ entry ∈ stack, entry.1 = position := by
  obtain ⟨entry, hmem, hposition⟩ := List.mem_map.1 h
  exact ⟨entry, List.mem_of_mem_filter hmem, hposition⟩

theorem pendingAt_append (popped below : List (Nat × Symbol)) :
    pendingAt (popped ++ below) = pendingAt popped ++ pendingAt below := by
  rw [pendingAt, List.filter_append, List.map_append, pendingAt, pendingAt]

theorem pendingAt_of_forall {popped : List (Nat × Symbol)}
    (h : ∀ entry ∈ popped, entry.2 ≠ .leftParen) : pendingAt popped = popped.map Prod.fst := by
  rw [pendingAt, List.filter_eq_self.2]
  intro entry hmem
  exact bne_iff_ne.2 (h entry hmem)

section

variable {count : Nat} {stack : List (Nat × Symbol)}

/-- An operator leaves waiting what stands below an entry that binds looser. -/
theorem Grouped.not_callsOut_operator (h : Grouped items count stack) {operator : Operator}
    (hsymbols : ∀ entry ∈ stack, items[entry.1]? = some (.symbol entry.2))
    (htop : ∀ entry ∈ stack.head?, entry.2.precedence < operator.precedence)
    (hitem : items[count]? = some (.symbol (.operator operator))) :
    ∀ position ∈ pendingAt stack, ¬ CallsOut items count position := by
  intro position hmem
  obtain ⟨entry, hentry, rfl⟩ := exists_of_mem_pendingAt hmem
  rintro (⟨hparen, -⟩ | ⟨caller, waiting, hcaller, hwaiting, hsame, hle⟩)
  · rw [hitem] at hparen
    cases hparen
  · have hlooser := h.looser htop hentry hsame
    rw [hitem] at hcaller
    cases hcaller
    rw [hsymbols entry hentry] at hwaiting
    rw [Item.symbol.inj (Option.some.inj hwaiting)] at hlooser
    exact absurd hle (Nat.not_le_of_lt hlooser)

/-- A closing parenthesis leaves waiting what stands in front of the one that it closes. -/
theorem Grouped.not_callsOut_rightParen {opening : Nat} (h : Grouped items opening stack)
    (hopens : Opens items opening count) (hitem : items[count]? = some (.symbol .rightParen)) :
    ∀ position ∈ pendingAt stack, ¬ CallsOut items count position := by
  intro position hmem
  obtain ⟨entry, hentry, rfl⟩ := exists_of_mem_pendingAt hmem
  rintro (⟨-, other, hother, hcloses⟩ | ⟨caller, waiting, hcaller, -⟩)
  · rw [hcloses.unique hopens] at hother
    exact h.not_opens hentry hother
  · rw [hitem] at hcaller
    cases hcaller

end

namespace Yard

/-- What a yard holds after a number of items, by its positions. -/
structure Holds (items : List Item) (count : Nat) (yard : Yard) (left : List Nat)
    (stack : List (Nat × Symbol)) : Prop where
  emitted : yard.emitted.toList = left.filterMap (items[·]?)
  waiting : yard.waiting = stack.map Prod.snd
  symbols : ∀ entry ∈ stack, items[entry.1]? = some (.symbol entry.2)
  grouped : Grouped items count stack
  settled : Settled items count left (pendingAt stack)

section

variable {count : Nat} {yard : Yard} {left : List Nat} {stack : List (Nat × Symbol)}

theorem holds_empty (items : List Item) : Holds items 0 {} [] [] where
  emitted := rfl
  waiting := rfl
  symbols := by simp
  grouped := .outside fun _ hopens => absurd hopens.lt (Nat.not_lt_zero _)
  settled := settled_nil items

theorem Holds.emit (h : Holds items count yard left stack) {popped : List (Nat × Symbol)}
    (hpopped : popped ⊆ stack) :
    (yard.emit (popped.map Prod.snd)).toList = (left ++ popped.map Prod.fst).filterMap (items[·]?) := by
  have hpositions : (popped.map Prod.fst).filterMap (items[·]?) = (popped.map Prod.snd).map .symbol := by
    rw [List.filterMap_map, List.map_map, ← List.filterMap_eq_map]
    exact List.filterMap_congr fun entry hmem => h.symbols entry (hpopped hmem)
  rw [toList_emit, h.emitted, List.filterMap_append, hpositions]

/-- The stack is cut where the waiting symbols are. -/
theorem Holds.exists_cut (h : Holds items count yard left stack) {front back : List Symbol}
    (hcut : yard.waiting = front ++ back) (hopen : Symbol.leftParen ∉ front) :
    ∃ popped below, stack = popped ++ below ∧ popped.map Prod.snd = front ∧
      below.map Prod.snd = back ∧ ∀ entry ∈ popped, entry.2 ≠ .leftParen := by
  rw [h.waiting] at hcut
  obtain ⟨popped, below, rfl, rfl, rfl⟩ := List.map_eq_append_iff.1 hcut
  refine ⟨popped, below, rfl, rfl, rfl, fun entry hmem hparen => hopen ?_⟩
  rw [← hparen]
  exact List.mem_map_of_mem hmem

theorem Holds.addOperand (h : Holds items count yard left stack) {operand : Operand}
    (hitem : items[count]? = some (.operand operand)) :
    Holds items (count + 1) { yard with emitted := yard.emitted.push (.operand operand) }
      (left ++ [count]) stack := by
  have hnone : ∀ position ∈ pendingAt stack, ¬ CallsOut items count position := fun position _ =>
    not_callsOut hitem (by simp) rfl position
  refine ⟨?_, h.waiting, h.symbols, h.grouped.congr (sameGroup_succ hitem rfl) (Nat.le_succ count),
    h.settled.operand hnone ⟨operand, hitem⟩⟩
  rw [Array.toList_push, h.emitted, List.filterMap_append]
  simp [hitem]

theorem Holds.open (h : Holds items count yard left stack)
    (hitem : items[count]? = some (.symbol .leftParen)) :
    Holds items (count + 1) { yard with waiting := .leftParen :: yard.waiting } left
      ((count, .leftParen) :: stack) := by
  have hnone : ∀ position ∈ pendingAt stack, ¬ CallsOut items count position := fun position _ =>
    not_callsOut hitem (by simp) rfl position
  have hsettled : Settled items (count + 1) (left ++ []) (pendingAt stack) :=
    Settled.paren h.settled (List.forall_mem_nil _) hnone (not_isTermAt hitem rfl)
  rw [List.append_nil] at hsettled
  refine ⟨h.emitted, ?_, ?_, .paren (opens_succ hitem) h.grouped, hsettled⟩
  · rw [h.waiting]
    rfl
  · exact List.forall_mem_cons.2 ⟨hitem, h.symbols⟩

theorem Holds.addOperator (h : Holds items count yard left stack) {operator : Operator}
    (hitem : items[count]? = some (.symbol (.operator operator))) :
    ∃ left stack, Holds items (count + 1) (yard.addOperator operator) left stack := by
  obtain ⟨popped, below, rfl, hpopped, hbelow, hopen⟩ :=
    h.exists_cut (List.takeWhile_append_dropWhile).symm (leftParen_not_mem_yields operator yard.waiting)
  obtain ⟨hgrouped, hoperators⟩ := h.grouped.of_append hopen
  have htop : ∀ entry ∈ below.head?, entry.2.precedence < operator.precedence := by
    intro entry hentry
    have hhead : entry.2 ∈ (yard.waiting.dropWhile (yieldsTo operator.precedence)).head? := by
      rw [← hbelow, List.head?_map, Option.mem_def.1 hentry]
      rfl
    simpa [yieldsTo] using not_of_mem_head?_dropWhile hhead
  have hcalled : ∀ position ∈ popped.map Prod.fst, CallsOut items count position := by
    intro position hmem
    obtain ⟨entry, hentry, rfl⟩ := List.mem_map.1 hmem
    obtain ⟨waiting, hwaiting, hsame⟩ := hoperators entry hentry
    have hyields : yieldsTo operator.precedence entry.2 = true := by
      apply mem_takeWhile
      rw [← hpopped]
      exact List.mem_map_of_mem hentry
    have hsymbol := h.symbols entry (List.mem_append_left below hentry)
    rw [hwaiting] at hsymbol hyields
    exact .inr ⟨operator, waiting, hitem, hsymbol, hsame, of_decide_eq_true hyields⟩
  have hbelowSymbols : ∀ entry ∈ below, items[entry.1]? = some (.symbol entry.2) :=
    fun entry hmem => h.symbols entry (List.mem_append_right popped hmem)
  have hrest := hgrouped.not_callsOut_operator hbelowSymbols htop hitem
  have hsettled := h.settled
  rw [pendingAt_append, pendingAt_of_forall hopen] at hsettled
  refine ⟨left ++ popped.map Prod.fst, (count, .operator operator) :: below, ?_, ?_, ?_, ?_, ?_⟩
  · rw [← h.emit (List.subset_append_left popped below), hpopped]
    rfl
  · rw [List.map_cons, hbelow]
    rfl
  · exact List.forall_mem_cons.2 ⟨hitem, hbelowSymbols⟩
  · exact .operator (Nat.lt_succ_self count) (sameGroup_succ hitem rfl) htop hgrouped
  · exact hsettled.operator hcalled hrest hitem

theorem Holds.close (h : Holds items count yard left stack)
    (hitem : items[count]? = some (.symbol .rightParen)) (hmatched : yard.close.2 = true) :
    ∃ left stack, Holds items (count + 1) yard.close.1 left stack := by
  obtain ⟨popped, rest, rfl, hpopped, hrest, hopen⟩ :=
    h.exists_cut (waiting_of_close hmatched) (leftParen_not_mem_inside yard.waiting)
  obtain ⟨⟨opening, symbol⟩, below, rfl, hsymbol, hbelow⟩ := List.map_eq_cons_iff.1 hrest
  obtain rfl : symbol = .leftParen := hsymbol
  obtain ⟨hgrouped, hoperators⟩ := h.grouped.of_append hopen
  cases hgrouped with
  | paren hopens hgrouped =>
    have hcalled : ∀ position ∈ popped.map Prod.fst, CallsOut items count position := by
      intro position hmem
      obtain ⟨entry, hentry, rfl⟩ := List.mem_map.1 hmem
      obtain ⟨waiting, -, hsame⟩ := hoperators entry hentry
      exact .inl ⟨hitem, opening, (hsame opening).2 hopens, hopens⟩
    have hnone := hgrouped.not_callsOut_rightParen hopens hitem
    have hsettled := h.settled
    rw [pendingAt_append, pendingAt_of_forall hopen] at hsettled
    refine ⟨left ++ popped.map Prod.fst, below, ?_, hbelow.symm, ?_, ?_, ?_⟩
    · rw [← h.emit (List.subset_append_left popped _), hpopped]
      rfl
    · intro entry hmem
      exact h.symbols entry (List.mem_append_right popped (List.mem_cons_of_mem _ hmem))
    · exact hgrouped.congr (hopens.sameGroup_succ hitem) (Nat.le_succ_of_le hopens.lt.le)
    · exact hsettled.paren hcalled hnone (not_isTermAt hitem rfl)

theorem Holds.add (h : Holds items count yard left stack) {item : Item} {next : Yard}
    (hitem : items[count]? = some item) (hadd : (add item).run yard = .ok () next) :
    ∃ left stack, Holds items (count + 1) next left stack := by
  cases item with
  | operand operand =>
    rw [run_add_operand] at hadd
    cases hadd
    exact ⟨_, _, h.addOperand hitem⟩
  | symbol symbol =>
    cases symbol with
    | operator operator =>
      rw [run_add_operator] at hadd
      cases hadd
      exact h.addOperator hitem
    | leftParen =>
      rw [run_add_leftParen] at hadd
      cases hadd
      exact ⟨_, _, h.open hitem⟩
    | rightParen =>
      rw [run_add_rightParen] at hadd
      split at hadd
      next hmatched =>
        cases hadd
        exact h.close hitem hmatched
      next => cases hadd

theorem Holds.addAll {rest : List Item} {next : Yard} (h : Holds items count yard left stack)
    (hrest : items.drop count = rest) (hadd : yard.addAll rest = .ok () next) :
    ∃ last left stack, items.length ≤ last ∧ Holds items last next left stack := by
  -- The items behind `count` are those that are still to come, so the count grows as they go in.
  induction rest generalizing count yard left stack with
  | nil =>
    cases hadd
    exact ⟨count, left, stack, List.drop_eq_nil_iff.1 hrest, h⟩
  | cons item rest ih =>
    have hitem : items[count]? = some item := by
      rw [← List.head?_drop, hrest]
      rfl
    have hdrop : items.drop (count + 1) = rest := by
      rw [← List.tail_drop, hrest]
      rfl
    rw [addAll_cons] at hadd
    split at hadd
    next done after hafter =>
      obtain ⟨left, stack, hholds⟩ := h.add hitem hafter
      exact ih hholds hdrop hadd
    next => cases hadd

end

end Yard

/-! ### The postfix order -/

/-- The positions of the operands and operators of an expression in the order in which they come in its postfix form. -/
structure PostfixOrder (items : List Item) (order : List Nat) : Prop where
  nodup : order.Nodup
  mem : ∀ position, position ∈ order ↔ IsTermAt items position
  /-- An operand comes before all that stands behind it. -/
  operand : ∀ left right, left < right → IsOperandAt items left → IsTermAt items right →
    order.idxOf left < order.idxOf right
  /-- An operator comes before what stands behind it if it is called out up to there, and behind it otherwise. -/
  operator : ∀ left right operator, left < right →
    items[left]? = some (.symbol (.operator operator)) → IsTermAt items right →
      (CalledBy items right left → order.idxOf left < order.idxOf right) ∧
        (¬ CalledBy items right left → order.idxOf right < order.idxOf left)

section

variable {order : List Nat} {left right : Nat}

theorem isOperandAt_or_operator (h : IsTermAt items left) :
    IsOperandAt items left ∨ ∃ operator, items[left]? = some (.symbol (.operator operator)) := by
  obtain ⟨item, hitem, hparen⟩ := h
  cases item with
  | operand operand => exact .inl ⟨operand, hitem⟩
  | symbol symbol =>
    cases symbol with
    | operator operator => exact .inr ⟨operator, hitem⟩
    | leftParen => cases hparen
    | rightParen => cases hparen

theorem idxOf_lt_idxOf (horder : order.Pairwise (Precedes items)) (hleft : left ∈ order)
    (hright : right ∈ order) (h : Precedes items left right) :
    order.idxOf left < order.idxOf right := by
  by_contra hnot
  rcases Nat.lt_or_eq_of_le (Nat.le_of_not_lt hnot) with hless | hsame
  · have hprecedes := List.pairwise_iff_getElem.1 horder _ _ (List.idxOf_lt_length_of_mem hright)
      (List.idxOf_lt_length_of_mem hleft) hless
    rw [List.getElem_idxOf, List.getElem_idxOf] at hprecedes
    exact h.asymm hprecedes
  · exact h.ne ((List.idxOf_inj hleft).1 hsame.symm)

theorem postfixOrder_of_pairwise (horder : order.Pairwise (Precedes items))
    (hmem : ∀ position, position ∈ order ↔ IsTermAt items position) : PostfixOrder items order where
  nodup := horder.imp Precedes.ne
  mem := hmem
  operand := by
    intro left right hlt hoperand hright
    have hleft : IsTermAt items left := by
      obtain ⟨operand, hitem⟩ := hoperand
      exact ⟨.operand operand, hitem, rfl⟩
    exact idxOf_lt_idxOf horder ((hmem left).2 hleft) ((hmem right).2 hright)
      (.inl ⟨hlt, .inl hoperand⟩)
  operator := by
    intro left right operator hlt hitem hright
    have hleft := (hmem left).2 ⟨_, hitem, rfl⟩
    have hright := (hmem right).2 hright
    refine ⟨fun hcalled => ?_, fun hcalled => ?_⟩
    · exact idxOf_lt_idxOf horder hleft hright (.inl ⟨hlt, gone_succ_iff.2 (.inr hcalled)⟩)
    · refine idxOf_lt_idxOf horder hright hleft (.inr ⟨hlt, fun hgone => ?_⟩)
      rcases gone_succ_iff.1 hgone with ⟨operand, hoperand⟩ | hcaller
      · rw [hitem] at hoperand
        cases hoperand
      · exact hcalled hcaller

/-- Which of two positions comes first is settled by what the earlier one holds and by what calls it out. -/
theorem PostfixOrder.idxOf_lt_idxOf_iff (h : PostfixOrder items order) (hlt : left < right)
    (hleft : IsTermAt items left) (hright : IsTermAt items right) :
    order.idxOf left < order.idxOf right ↔ Gone items (right + 1) left := by
  rw [gone_succ_iff]
  rcases isOperandAt_or_operator hleft with hoperand | ⟨operator, hitem⟩
  · exact iff_of_true (h.operand left right hlt hoperand hright) (.inl hoperand)
  · obtain ⟨hcalled, hnot⟩ := h.operator left right operator hlt hitem hright
    refine ⟨fun hless => .inr ?_, ?_⟩
    · by_contra hcaller
      exact absurd (hnot hcaller) hless.asymm
    · rintro (⟨operand, hoperand⟩ | hcaller)
      · rw [hitem] at hoperand
        cases hoperand
      · exact hcalled hcaller

theorem PostfixOrder.pairwise (h : PostfixOrder items order) : order.Pairwise (Precedes items) := by
  refine List.pairwise_iff_getElem.2 fun first second hfirst hsecond hless => ?_
  have hleft := (h.mem _).1 (List.getElem_mem hfirst)
  have hright := (h.mem _).1 (List.getElem_mem hsecond)
  have hindex : order.idxOf order[first] < order.idxOf order[second] := by
    rw [h.nodup.idxOf_getElem, h.nodup.idxOf_getElem]
    exact hless
  -- Which comes first is decided at the later of the two positions, whichever that is.
  rcases Nat.lt_trichotomy order[first] order[second] with hlt | hsame | hlt
  · exact .inl ⟨hlt, (h.idxOf_lt_idxOf_iff hlt hleft hright).1 hindex⟩
  · rw [hsame] at hindex
    exact absurd hindex (Nat.lt_irrefl _)
  · refine .inr ⟨hlt, fun hgone => ?_⟩
    exact absurd ((h.idxOf_lt_idxOf_iff hlt hright hleft).2 hgone) hindex.asymm

/-- There is one such order. -/
theorem PostfixOrder.unique {other : List Nat} (h : PostfixOrder items order)
    (hother : PostfixOrder items other) : order = other := by
  have hperm : order.Perm other :=
    (List.perm_ext_iff_of_nodup h.nodup hother.nodup).2 fun position =>
      (h.mem position).trans (hother.mem position).symm
  exact hperm.eq_of_pairwise (fun left right _ _ hprecedes hback => absurd hback hprecedes.asymm)
    h.pairwise hother.pairwise

end

/-- Items whose parentheses close are put in postfix order, and no others. -/
theorem toPostfix_follows_order (items : List Item) :
    (Balanced items → ∃ order, PostfixOrder items order ∧
        (∀ other, PostfixOrder items other → other = order) ∧
          toPostfix items = .ok (order.filterMap (items[·]?))) ∧
      (¬ Balanced items → toPostfix items = .error .invalidExpression) := by
  rw [← closesAll_zero_iff, ← toPostfix_eq_ok_iff]
  constructor
  · rintro ⟨reordered, hreordered⟩
    obtain ⟨next, hadd, hopen, rfl⟩ := Yard.toPostfix_eq_ok hreordered
    obtain ⟨last, left, stack, hlast, hholds⟩ := (Yard.holds_empty items).addAll rfl hadd
    -- No parenthesis waits at the end, so all that waits leaves with the position that it has.
    have hpending : pendingAt stack = stack.map Prod.fst := by
      refine pendingAt_of_forall fun entry hmem hparen => hopen ?_
      rw [hholds.waiting, ← hparen]
      exact List.mem_map_of_mem hmem
    have hsettled := hholds.settled
    rw [hpending] at hsettled
    have hmem : ∀ position, position ∈ left ++ stack.map Prod.fst ↔ IsTermAt items position := by
      intro position
      rw [hsettled.mem, and_iff_right_iff_imp]
      rintro ⟨item, hitem, -⟩
      exact (List.getElem?_eq_some_iff.1 hitem).1.trans_le hlast
    have horder := postfixOrder_of_pairwise hsettled.order hmem
    refine ⟨left ++ stack.map Prod.fst, horder, fun other hother => hother.unique horder, ?_⟩
    rw [hreordered, ← hholds.emit (List.Subset.refl stack), ← hholds.waiting]
  · intro hnot
    cases hreordered : toPostfix items with
    | ok reordered => exact absurd ⟨reordered, hreordered⟩ hnot
    | error failure => rw [toPostfix_eq_error hreordered]

theorem toPostfix_follows_order_group :
    Balanced [.operand (.number 2), .symbol (.operator .multiplication), .symbol .leftParen,
        .symbol (.operator .addition), .operand (.number 3), .symbol .rightParen] ∧
      ∃ order, PostfixOrder [.operand (.number 2), .symbol (.operator .multiplication),
          .symbol .leftParen, .symbol (.operator .addition), .operand (.number 3),
          .symbol .rightParen] order ∧
        toPostfix [.operand (.number 2), .symbol (.operator .multiplication), .symbol .leftParen,
            .symbol (.operator .addition), .operand (.number 3), .symbol .rightParen] =
          .ok [.operand (.number 2), .operand (.number 3), .symbol (.operator .addition),
            .symbol (.operator .multiplication)] := by
  have hbalanced : Balanced [.operand (.number 2), .symbol (.operator .multiplication),
      .symbol .leftParen, .symbol (.operator .addition), .operand (.number 3),
      .symbol .rightParen] := closesAll_zero_iff.1 rfl
  obtain ⟨order, horder, -⟩ := (toPostfix_follows_order _).1 hbalanced
  exact ⟨hbalanced, order, horder, rfl⟩

end LineCalculator
