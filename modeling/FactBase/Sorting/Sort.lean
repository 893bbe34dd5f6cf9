import FactBase.Sorting.Merge
import FactBase.Sorting.Run

/-
  This file sorts lists by a comparison that may fail.  The
  list is taken run by run, and neighbouring runs are merged
  in an order that depends on their lengths alone.  Equal
  elements keep their order.

  Key definitions include:
    * `Sorting.boundaryLevel`
    * `Sorting.Pending`
    * `Sorting.sort`
-/

------------------------------------------------------------
-- Pending Runs
------------------------------------------------------------

namespace FactBase

namespace Sorting

variable {α ε : Type}

/-
  The level of the boundary between two neighbouring runs:
  how often a whole has to be halved until the middles of the
  two runs lie in different parts of it.
-/
def boundaryLevel
    (total start first second : Nat) : Nat :=
  let left := 2 * start + first
  let right := left + first + second
  ((List.range (total.log2 + 2)).takeWhile (fun n =>
    left * Nat.pow 2 n / total
      == right * Nat.pow 2 n / total)).length

/-
  A run that waits to be merged: where it starts, and the
  level of the boundary to the next run.
-/
structure Pending (α : Type) where
  start : Nat
  items : List α
  level : Nat

/- Runs that wait, the last one first. -/
structure Schedule (α : Type) where
  runs : List (Pending α)
  patience : Nat

/- No run waits yet. -/
def Schedule.empty : Schedule α where
  runs := []
  patience := Pace.worthwhile

------------------------------------------------------------
-- Merging Pending Runs
------------------------------------------------------------

/-
  Merge the last run into those before it, as long as a
  boundary has a deeper level than the one that follows.
-/
def settle
    (less : α → α → Except ε Bool)
    (level patience : Nat)
    (top : Pending α) :
    List (Pending α) → Except ε (Schedule α)
  | [] => .ok
      { runs := [{ top with level := level }]
        patience := patience }
  | below :: rest => do
      if level < below.level then
        let (items, p) ←
          mergeRuns less patience below.items top.items
        settle less level p { below with items := items } rest
      else
        return {
          runs := { top with level := level } :: below :: rest
          patience := patience }

/- Add a run at the end. -/
def Schedule.push
    (less : α → α → Except ε Bool)
    (total : Nat)
    (s : Schedule α)
    (run : List α) : Except ε (Schedule α) :=
  match s.runs with
  | [] => .ok
      { s with runs := [{ start := 0, items := run, level := 0 }] }
  | top :: rest => do
      let count := top.items.length
      let level :=
        boundaryLevel total top.start count run.length
      let settled ← settle less level s.patience top rest
      let last : Pending α :=
        { start := top.start + count
          items := run
          level := 0 }
      return { settled with runs := last :: settled.runs }

/-
  Merge all runs from the last one on.  The two runs before
  the last are merged first if the last one is the longest
  of the outer two.
-/
def finish
    (less : α → α → Except ε Bool)
    (patience : Nat)
    (top : List α)
    (rest : List (List α)) : Except ε (List α) :=
  match rest with
  | [] => .ok top
  | [below] => do
      let (items, _) ← mergeRuns less patience below top
      return items
  | below :: third :: rest => do
      if third.length < top.length then
        let (items, p) ← mergeRuns less patience third below
        finish less p top (items :: rest)
      else
        let (items, p) ← mergeRuns less patience below top
        finish less p items (third :: rest)
termination_by rest.length

------------------------------------------------------------
-- Sorting
------------------------------------------------------------

/- Take a list run by run. -/
def schedule
    (less : α → α → Except ε Bool)
    (total : Nat)
    (s : Schedule α)
    (xs : List α) : Except ε (Schedule α) :=
  match xs with
  | [] => .ok s
  | x :: xs => do
      let run ← nextRun less (leastRun total) x xs
      let s ← s.push less total run
      schedule less total s (xs.drop (run.length - 1))
termination_by xs.length
decreasing_by
  simp only [List.length_cons, List.length_drop]
  omega

/-
  Sort a list, equal elements keeping their order.  It fails
  where two elements that meet cannot be compared.
-/
def sort
    (less : α → α → Except ε Bool)
    (xs : List α) : Except ε (List α) := do
  let s ← schedule less xs.length .empty xs
  match s.runs.map Pending.items with
  | [] => return []
  | top :: rest => finish less s.patience top rest

end Sorting

end FactBase
