import LineCalculator.Proofs.Expression.Parentheses
import Mathlib.Data.List.Infix

/-!
# Groups of an expression

Where a position stands is said by counting: the height in front of it is the number of parentheses
that are open there. A parenthesis opens the innermost group of a position when all parentheses
between the two close, which is when the height comes back to what it was behind the parenthesis
without having been lower. So what the next item changes about this is arithmetic of heights.
-/

namespace LineCalculator

/-- No closing parenthesis comes without an open one in front, and none stays open. -/
structure Balanced (items : List Item) : Prop where
  prefixes : ∀ front, front <+: items →
    front.count (.symbol .rightParen) ≤ front.count (.symbol .leftParen)
  totals : items.count (.symbol .leftParen) = items.count (.symbol .rightParen)

/-! ### Heights -/

namespace Item

/-- What an item adds to the number of open parentheses. -/
def rise : Item → Int
  | symbol .leftParen => 1
  | symbol .rightParen => -1
  | _ => 0

theorem rise_of_isParen_eq_false {item : Item} (h : item.isParen = false) : item.rise = 0 := by
  cases item with
  | operand operand => rfl
  | symbol symbol =>
    cases symbol with
    | operator operator => rfl
    | leftParen => cases h
    | rightParen => cases h

/-- How many more parentheses items open than they close. -/
def height : List Item → Int
  | [] => 0
  | item :: items => item.rise + height items

theorem height_nil : height [] = 0 := rfl

theorem height_cons (item : Item) (items : List Item) :
    height (item :: items) = item.rise + height items :=
  rfl

theorem height_append (left right : List Item) :
    height (left ++ right) = height left + height right := by
  induction left with
  | nil => rw [List.nil_append, height_nil, Int.zero_add]
  | cons item left ih => rw [List.cons_append, height_cons, ih, height_cons, Int.add_assoc]

theorem height_eq (items : List Item) :
    height items =
      items.count (.symbol .leftParen) - (items.count (.symbol .rightParen) : Int) := by
  induction items with
  | nil => rfl
  | cons item items ih =>
    rw [height_cons, ih]
    cases item with
    | operand operand => simp [rise]
    | symbol symbol => cases symbol <;> simp [rise] <;> omega

end Item

theorem balanced_iff {items : List Item} :
    Balanced items ↔ (∀ front, front <+: items → 0 ≤ Item.height front) ∧ Item.height items = 0 := by
  constructor
  · intro ⟨hprefixes, htotals⟩
    refine ⟨fun front hfront => ?_, ?_⟩
    · have hle := hprefixes front hfront
      rw [Item.height_eq]
      omega
    · rw [Item.height_eq]
      omega
  · intro ⟨hprefixes, htotal⟩
    rw [Item.height_eq] at htotal
    refine ⟨fun front hfront => ?_, by omega⟩
    have hle := hprefixes front hfront
    rw [Item.height_eq] at hle
    omega

theorem forall_prefix_cons_iff {base : Int} (hbase : 0 ≤ base) (item : Item) (items : List Item) :
    (∀ front, front <+: item :: items → 0 ≤ base + Item.height front) ↔
      ∀ front, front <+: items → 0 ≤ base + item.rise + Item.height front := by
  constructor
  · intro h front hfront
    have hle := h (item :: front) (List.cons_prefix_cons.2 ⟨rfl, hfront⟩)
    rw [Item.height_cons] at hle
    omega
  · intro h front hfront
    rcases List.prefix_cons_iff.1 hfront with rfl | ⟨rest, rfl, hrest⟩
    · rwa [Item.height_nil, Int.add_zero]
    · have hle := h rest hrest
      rw [Item.height_cons]
      omega

theorem closesAll_iff (depth : Nat) (items : List Item) :
    closesAll depth items = true ↔
      (∀ front, front <+: items → 0 ≤ (depth : Int) + Item.height front) ∧
        (depth : Int) + Item.height items = 0 := by
  induction items generalizing depth with
  | nil =>
    rw [closesAll, beq_iff_eq, Item.height_nil]
    constructor
    · intro h
      refine ⟨fun front hfront => ?_, by omega⟩
      rw [List.prefix_nil.1 hfront, Item.height_nil]
      omega
    · rintro ⟨-, h⟩
      omega
  | cons item items ih =>
    rw [forall_prefix_cons_iff (Int.natCast_nonneg depth), Item.height_cons, ← Int.add_assoc]
    cases item with
    | operand operand =>
      rw [Item.rise_of_isParen_eq_false rfl, Int.add_zero]
      exact ih depth
    | symbol symbol =>
      cases symbol with
      | operator operator =>
        rw [Item.rise_of_isParen_eq_false rfl, Int.add_zero]
        exact ih depth
      | leftParen => exact ih (depth + 1)
      | rightParen =>
        cases depth with
        | zero =>
          constructor
          · intro h
            cases h
          · rintro ⟨h, -⟩
            have hle := h [] List.nil_prefix
            rw [Item.rise, Item.height_nil] at hle
            omega
        | succ outer =>
          have hdepth : ((outer + 1 : Nat) : Int) + Item.rise (.symbol .rightParen) = outer := by
            rw [Item.rise]
            omega
          rw [hdepth]
          exact ih outer

theorem closesAll_zero_iff {items : List Item} : closesAll 0 items = true ↔ Balanced items := by
  rw [closesAll_iff, balanced_iff]
  simp

/-! ### Groups -/

/-- The items behind one position and in front of another. -/
def between (items : List Item) (left right : Nat) : List Item :=
  (items.take right).drop (left + 1)

/-- The parenthesis at `opening` opens the innermost group that holds the position. -/
structure Opens (items : List Item) (opening position : Nat) : Prop where
  lt : opening < position
  leftParen : items[opening]? = some (.symbol .leftParen)
  closed : Balanced (between items opening position)

/-- Both positions are in one innermost group, or in none. -/
def SameGroup (items : List Item) (left right : Nat) : Prop :=
  ∀ opening, Opens items opening left ↔ Opens items opening right

/-- How many parentheses are open in front of a position. -/
def heightAt (items : List Item) (position : Nat) : Int :=
  Item.height (items.take position)

section

variable {items : List Item} {item : Item} {opening other position : Nat}

theorem heightAt_succ (h : items[position]? = some item) :
    heightAt items (position + 1) = heightAt items position + item.rise := by
  rw [heightAt, heightAt, List.take_add_one, h, Item.height_append]
  simp [Item.height]

theorem height_between {left right : Nat} (h : left < right) :
    Item.height (between items left right) = heightAt items right - heightAt items (left + 1) := by
  have hle : left + 1 ≤ right := h
  have hsplit := List.take_append_drop (left + 1) (items.take right)
  rw [List.take_take, Nat.min_eq_left hle] at hsplit
  rw [heightAt, ← hsplit, Item.height_append, heightAt, between]
  omega

/-- The parentheses between two positions close when the height comes back to what it was behind the first and is not lower anywhere between. -/
theorem balanced_between_iff {left right : Nat} (h : left < right) :
    Balanced (between items left right) ↔
      heightAt items right = heightAt items (left + 1) ∧
        ∀ middle, left < middle → middle ≤ right →
          heightAt items (left + 1) ≤ heightAt items middle := by
  rw [balanced_iff, height_between h]
  constructor
  · intro ⟨hfronts, htotal⟩
    refine ⟨by omega, fun middle hleft hright => ?_⟩
    have hfront : between items left middle <+: between items left right :=
      List.IsPrefix.drop (List.take_prefix_take_left hright) (left + 1)
    have hle := hfronts _ hfront
    rw [height_between hleft] at hle
    omega
  · intro ⟨htotal, hmiddle⟩
    refine ⟨fun front hfront => ?_, by omega⟩
    have hcut : front = between items left (min (left + 1 + front.length) right) := by
      rw [between, ← List.take_take, ← List.take_drop]
      exact List.prefix_iff_eq_take.1 hfront
    have hle := hmiddle (min (left + 1 + front.length) right) (by omega) (by omega)
    rw [hcut, height_between (by omega)]
    omega

theorem opens_iff :
    Opens items opening position ↔
      opening < position ∧ items[opening]? = some (.symbol .leftParen) ∧
        heightAt items position = heightAt items opening + 1 ∧
        ∀ middle, opening < middle → middle ≤ position →
          heightAt items opening < heightAt items middle := by
  constructor
  · intro ⟨hlt, hparen, hclosed⟩
    have hnext := heightAt_succ hparen
    obtain ⟨htotal, hmiddle⟩ := (balanced_between_iff hlt).1 hclosed
    rw [Item.rise] at hnext
    refine ⟨hlt, hparen, by omega, fun middle hleft hright => ?_⟩
    have hle := hmiddle middle hleft hright
    omega
  · intro ⟨hlt, hparen, htotal, hmiddle⟩
    have hnext := heightAt_succ hparen
    rw [Item.rise] at hnext
    refine ⟨hlt, hparen, (balanced_between_iff hlt).2 ⟨by omega, fun middle hleft hright => ?_⟩⟩
    have hlower := hmiddle middle hleft hright
    omega

theorem Opens.unique (h : Opens items opening position) (hother : Opens items other position) :
    opening = other := by
  obtain ⟨hlt, hparen, htotal, hmiddle⟩ := opens_iff.1 h
  obtain ⟨hlt', hparen', htotal', hmiddle'⟩ := opens_iff.1 hother
  rcases Nat.lt_trichotomy opening other with hless | rfl | hmore
  · have hlower := hmiddle other hless hlt'.le
    omega
  · rfl
  · have hlower := hmiddle' opening hmore hlt.le
    omega

/-! ### What the next item changes -/

theorem sameGroup_succ (h : items[position]? = some item) (hparen : item.isParen = false) :
    SameGroup items position (position + 1) := by
  have hsame := heightAt_succ h
  rw [Item.rise_of_isParen_eq_false hparen] at hsame
  intro opening
  rw [opens_iff, opens_iff]
  constructor
  · intro ⟨hlt, hopen, htotal, hmiddle⟩
    refine ⟨by omega, hopen, by omega, fun middle hleft hright => ?_⟩
    rcases Nat.lt_or_eq_of_le hright with hless | rfl
    · exact hmiddle middle hleft (by omega)
    · omega
  · intro ⟨hlt, hopen, htotal, hmiddle⟩
    have hne : opening ≠ position := by
      rintro rfl
      rw [h] at hopen
      cases hopen
      cases hparen
    exact ⟨by omega, hopen, by omega, fun middle hleft hright => hmiddle middle hleft (by omega)⟩

theorem opens_succ (h : items[position]? = some (.symbol .leftParen)) :
    Opens items position (position + 1) := by
  have hnext := heightAt_succ h
  rw [Item.rise] at hnext
  refine opens_iff.2 ⟨by omega, h, hnext, fun middle hleft hright => ?_⟩
  obtain rfl : middle = position + 1 := by omega
  omega

theorem Opens.sameGroup_succ (hopens : Opens items opening position)
    (h : items[position]? = some (.symbol .rightParen)) :
    SameGroup items opening (position + 1) := by
  obtain ⟨hlt, hparen, htotal, hmiddle⟩ := opens_iff.1 hopens
  have hnext := heightAt_succ h
  rw [Item.rise] at hnext
  intro outer
  rw [opens_iff, opens_iff]
  constructor
  · intro ⟨hltouter, hopen, htotalouter, hmiddleouter⟩
    refine ⟨by omega, hopen, by omega, fun middle hleft hright => ?_⟩
    -- Inside the group that closes the height is above that in front of it.
    rcases Nat.lt_or_ge opening middle with hinside | hbefore
    · rcases Nat.lt_or_eq_of_le hright with hless | rfl
      · have hlower := hmiddle middle hinside (by omega)
        omega
      · omega
    · exact hmiddleouter middle hleft hbefore
  · intro ⟨hltouter, hopen, htotalouter, hmiddleouter⟩
    have hbefore : outer < opening := by
      by_contra hnot
      have hne : outer ≠ position := by
        rintro rfl
        rw [h] at hopen
        cases hopen
      rcases Nat.lt_or_eq_of_le (Nat.le_of_not_lt hnot) with hinside | rfl
      · have hlower := hmiddle outer hinside (by omega)
        omega
      · omega
    have hlower := hmiddleouter opening hbefore (by omega)
    exact ⟨hbefore, hopen, by omega, fun middle hleft hright => hmiddleouter middle hleft (by omega)⟩

end

end LineCalculator
