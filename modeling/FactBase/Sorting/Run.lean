import FactBase.Sorting.Search

/-
  This file finds the sorted runs at the head of a list.  A
  run that is too short is filled up by inserting the
  elements that follow.

  Key definitions include:
    * `Sorting.naturalRun`
    * `Sorting.insert`
    * `Sorting.leastRun`
    * `Sorting.nextRun`
-/

------------------------------------------------------------
-- Natural Runs
------------------------------------------------------------

namespace FactBase

namespace Sorting

variable {α ε : Type}

/- The leading elements, each of which follows the last. -/
def chain
    (follows : α → α → Except ε Bool)
    (last : α) : List α → Except ε (List α)
  | [] => .ok []
  | x :: xs => do
      if ← follows last x then
        return x :: (← chain follows x xs)
      else
        return []

/-
  The longest sorted run at the head of a list.  A run that
  descends is turned around, so no two of its elements may
  be equal.
-/
def naturalRun
    (less : α → α → Except ε Bool)
    (x : α) : List α → Except ε (List α)
  | [] => .ok [x]
  | y :: ys => do
      if ← less y x then
        let run ← chain (fun last z => less z last) y ys
        return (x :: y :: run).reverse
      else
        let run ←
          chain (fun last z => waits (less z last)) y ys
        return x :: y :: run

------------------------------------------------------------
-- Filled Runs
------------------------------------------------------------

/- Insert an element into a run, after all that equal it. -/
def insert
    (less : α → α → Except ε Bool)
    (run : List α)
    (x : α) : Except ε (List α) := do
  let k ← halve .forward (fun y => waits (less x y)) run
  return run.take k ++ x :: run.drop k

/-
  The least length of a run in a list of some length.  The
  list is halved until fewer than 64 elements are left; an
  element left over by a halving makes the run one longer.
-/
def leastRun (n : Nat) : Nat :=
  let cell := Nat.pow 2 (n.log2 - 5)
  (n + cell - 1) / cell

/- The run at the head of a list, filled up if need be. -/
def nextRun
    (less : α → α → Except ε Bool)
    (least : Nat)
    (x : α)
    (xs : List α) : Except ε (List α) := do
  let run ← naturalRun less x xs
  let rest := xs.drop (run.length - 1)
  (rest.take (least - run.length)).foldlM (insert less) run

end Sorting

end FactBase
