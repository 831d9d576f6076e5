import Std.Data.ExtTreeMap
import LineCalculator.Text.Blank

/-!
# Variables

The values bound so far, by name. A later assignment to a name replaces the earlier one and nothing
is removed. Two stores are equal when every name has the same value in both.
-/

namespace LineCalculator

structure Store where
  bindings : Std.ExtTreeMap Text Float

namespace Store

def empty : Store := ⟨∅⟩

instance : EmptyCollection Store := ⟨empty⟩

def get? (store : Store) (name : Text) : Option Float :=
  store.bindings[name]?

def contains (store : Store) (name : Text) : Bool :=
  store.bindings.contains name

def assign (store : Store) (name : Text) (value : Float) : Store :=
  ⟨store.bindings.insert name value⟩

def size (store : Store) : Nat :=
  store.bindings.size

def isEmpty (store : Store) : Bool :=
  store.bindings.isEmpty

/-- Assigns pairs from left to right. -/
def ofList (pairs : List (Text × Float)) : Store :=
  pairs.foldl (fun store pair => store.assign pair.1 pair.2) ∅

@[ext] theorem ext {left right : Store} (h : ∀ name, left.get? name = right.get? name) :
    left = right := by
  cases left
  cases right
  exact congrArg Store.mk (Std.ExtTreeMap.ext_getElem? h)

@[simp] theorem get?_empty (name : Text) : (∅ : Store).get? name = none :=
  Std.ExtTreeMap.getElem?_empty

theorem get?_assign (store : Store) (name other : Text) (value : Float) :
    (store.assign name value).get? other = if name = other then some value else store.get? other := by
  simp [get?, assign, Std.ExtTreeMap.getElem?_insert]

theorem size_assign (store : Store) (name : Text) (value : Float) :
    (store.assign name value).size = if store.contains name then store.size else store.size + 1 :=
  Std.ExtTreeMap.size_insert

theorem contains_eq_isSome_get? (store : Store) (name : Text) :
    store.contains name = (store.get? name).isSome :=
  Std.ExtTreeMap.contains_eq_isSome_getElem?

end Store

end LineCalculator
