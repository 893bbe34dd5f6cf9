import FactBase.Value.Order
import FactBase.Value.Table

/-
  This file compares values that may have no end, because a
  list in them stands inside itself.  Two of them are walked
  through side by side.  A walk that comes to a pair of places
  for the second time would go on for ever, so no walk needs
  more steps down than there are such pairs.

  Key definitions include:
    * `Value.endless`
    * `Value.extent`
    * `Value.alike?`
    * `Value.equals?`
    * `Unordered`
    * `Value.compared`

  Key theorems include:
    * `Value.alike?_of_not_endless`
    * `Value.alike?_cyclic_self`
    * `Value.alike?_of_endless_of_not_endless`
    * `Value.equals?_of_not_endless`
    * `Value.compared_of_not_endless`
-/

------------------------------------------------------------
-- Values without End
------------------------------------------------------------

namespace FactBase

namespace Value

mutual

/- The value has no end. -/
def endless : Value → Bool
  | .list items => endlessItems items
  | .tuple items => endlessItems items
  | .map entries => endlessEntries entries
  | .cyclic _ _ => true
  | .enclosing _ => true
  | _ => false

/- Some item has no end. -/
def endlessItems : List Value → Bool
  | [] => false
  | v :: vs => endless v || endlessItems vs

/- The value of some entry has no end. -/
def endlessEntries : List (Value × Value) → Bool
  | [] => false
  | (_, v) :: entries => endless v || endlessEntries entries

end

mutual

/- The number of places in a value. -/
def extent : Value → Nat
  | .list items => extentOfItems items + 1
  | .tuple items => extentOfItems items + 1
  | .map entries => extentOfEntries entries + 1
  | .cyclic _ items => extentOfItems items + 1
  | _ => 1

/- The number of places in all items. -/
def extentOfItems : List Value → Nat
  | [] => 0
  | v :: vs => extent v + extentOfItems vs

/- The number of places in the values of all entries. -/
def extentOfEntries : List (Value × Value) → Nat
  | [] => 0
  | (_, v) :: entries => extent v + extentOfEntries entries

end

/- The number of pairs of places in two values. -/
def pairings (a b : Value) : Nat :=
  extent a * extent b

/- A list that stands inside itself as a list of its items. -/
def opened : Value → Value
  | .cyclic origin items => .list (unrolled origin items)
  | v => v

/- A list that has grown, as one inside itself if it is. -/
def closed
    (origin : Origin)
    (v : Value) : Value :=
  match v with
  | .list items =>
      if endlessItems items then .cyclic origin items
      else .list items
  | v => v

------------------------------------------------------------
-- Equality
------------------------------------------------------------

/-
  Whether two sequences agree item by item, if that can be
  told.  The first pair of items that differ settles it.
-/
def itemsAlike
    (alike : Value → Value → Option Bool)
    (xs ys : List Value) : Option Bool :=
  if xs.length == ys.length then
    (xs.zip ys).allM (fun p => alike p.1 p.2)
  else some false

/-
  Whether two maps agree key by key, if that can be told.
  The first key whose values differ settles it.
-/
def entriesAlike
    (alike : Value → Value → Option Bool)
    (xs ys : List (Value × Value)) : Option Bool :=
  if xs.length == ys.length then
    xs.allM (fun x =>
      match Table.find? x.1 ys with
      | some v => alike x.2 v
      | none => some false)
  else some false

/-
  Whether a container takes the second value for the first,
  if that can be told within a number of steps down.  No value
  without end is taken for one that has an end.
-/
def alikeWithin : Nat → Value → Value → Option Bool
  | 0, _, _ => none
  | n + 1, a, b =>
      if a.endless && b.endless then
        if same a b then some true
        else
          match a.opened, b.opened with
          | .list xs, .list ys =>
              itemsAlike (alikeWithin n) xs ys
          | .tuple xs, .tuple ys =>
              itemsAlike (alikeWithin n) xs ys
          | .map xs, .map ys =>
              entriesAlike (alikeWithin n) xs ys
          | _, _ => some false
      else if a.endless || b.endless then some false
      else some (same a b)

/-
  Whether a container takes the second value for the first.
  There is no answer where a walk through both has no end.
-/
def alike? (a b : Value) : Option Bool :=
  alikeWithin (pairings a b + 1) a b

/- Whether two values are equal, if that can be told. -/
def equals? (a b : Value) : Option Bool :=
  if a.isUndefined then some false else alike? a b

/- Values that have an end are alike if they are the same. -/
theorem alike?_of_not_endless
    (a b : Value)
    (hLeft : a.endless = false)
    (hRight : b.endless = false) :
    alike? a b = some (same a b) := by
  simp [alike?, alikeWithin, hLeft, hRight]

/- A list that stands inside itself is alike to itself. -/
theorem alike?_cyclic_self
    (origin : Origin)
    (xs ys : List Value) :
    alike? (.cyclic origin xs) (.cyclic origin ys)
      = some true := by
  simp [alike?, alikeWithin, endless, same]

/- No value without end is alike to one that has an end. -/
theorem alike?_of_endless_of_not_endless
    (a b : Value)
    (hLeft : a.endless = true)
    (hRight : b.endless = false) :
    alike? a b = some false := by
  simp [alike?, alikeWithin, hLeft, hRight]

/- Whether values that have an end are equal can be told. -/
theorem equals?_of_not_endless
    (a b : Value)
    (hLeft : a.endless = false)
    (hRight : b.endless = false) :
    equals? a b = some (equal a b) := by
  unfold equals? equal
  rw [alike?_of_not_endless a b hLeft hRight]
  by_cases h : a.isUndefined = true <;> simp [h]

end Value

------------------------------------------------------------
-- Order
------------------------------------------------------------

/- Why a comparison of two values has no answer. -/
inductive Unordered where
  | incomparable (reason : Incomparable)
  | endless
deriving DecidableEq, Repr

namespace Value

/-
  Whether a comparison holds between two sequences, by the
  first items that differ, or by length when there are none.
-/
def itemsCompared
    (c : Comparison)
    (compared : Value → Value → Except Unordered Bool) :
    List Value → List Value → Except Unordered Bool
  | [], ys => .ok (c.accepts (compare 0 ys.length))
  | _ :: _, [] => .ok (c.accepts .gt)
  | x :: xs, y :: ys =>
      match alike? x y with
      | some true => itemsCompared c compared xs ys
      | some false => compared x y
      | none => .error .endless

/-
  Whether a comparison holds between two values, if that can
  be told within a number of steps down.
-/
def comparedWithin
    (c : Comparison) :
    Nat → Value → Value → Except Unordered Bool
  | 0, _, _ => .error .endless
  | n + 1, a, b =>
      if a.endless || b.endless then
        match a.opened, b.opened with
        | .list xs, .list ys =>
            itemsCompared c (comparedWithin c n) xs ys
        | .tuple xs, .tuple ys =>
            itemsCompared c (comparedWithin c n) xs ys
        | _, _ =>
            (orderedAtoms c a b).mapError .incomparable
      else (ordered c a b).mapError .incomparable

/- Whether a comparison holds between two values. -/
def compared
    (c : Comparison)
    (a b : Value) : Except Unordered Bool :=
  comparedWithin c (pairings a b + 1) a b

/- Values that have an end are compared by their order. -/
theorem compared_of_not_endless
    (c : Comparison)
    (a b : Value)
    (hLeft : a.endless = false)
    (hRight : b.endless = false) :
    compared c a b =
      (ordered c a b).mapError .incomparable := by
  simp [compared, comparedWithin, hLeft, hRight]

end Value

end FactBase
