import FactBase.Value.Printer
import FactBase.Value.Order

/-
  This file defines the frozen form of a value: sequences
  become tuples, maps become tuples of their entries sorted
  by description, sets become frozen sets.  Rows are compared
  by their frozen forms.

  Key definitions include:
    * `Value.frozen`
    * `Value.sortedBy`
-/

------------------------------------------------------------
-- Frozen Values
------------------------------------------------------------

namespace FactBase

namespace Value

/- Sort values by the code points of a text. -/
def sortedBy
    {α : Type}
    (key : α → String)
    (xs : List α) : List α :=
  ((xs.map (fun x => (key x, x))).mergeSort
    (fun p q => compareTexts p.1 q.1 != .gt)).map Prod.snd

mutual

/- The form in which a value is recognised again. -/
def frozen : Value → Value
  | .list items => .tuple (frozenItems items)
  | .tuple items => .tuple (frozenItems items)
  | .map entries =>
      .tuple (sortedBy description (frozenEntries entries))
  | .set items => .frozenset (distinct (frozenItems items))
  | .frozenset items =>
      .frozenset (distinct (frozenItems items))
  | v => v

/- The frozen forms of all items. -/
def frozenItems : List Value → List Value
  | [] => []
  | v :: vs => frozen v :: frozenItems vs

/- The entries of a map as pairs of key and frozen value. -/
def frozenEntries : List (Value × Value) → List Value
  | [] => []
  | (k, v) :: entries =>
      .tuple [k, frozen v] :: frozenEntries entries

end

/- All items are frozen one by one. -/
theorem frozenItems_eq_map (items : List Value) :
    frozenItems items = items.map frozen := by
  induction items with
  | nil => rfl
  | cons v vs ih => simp [frozenItems, ih]

end Value

end FactBase
