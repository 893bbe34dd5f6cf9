import FactBase.Sorting.Search

/-
  This file merges two sorted runs.  Elements are compared
  one by one until one run wins many times in a row; from
  then on the merge leaps over all that come from one run
  before the next element of the other.

  Key definitions include:
    * `Sorting.Pace`
    * `Sorting.mergeFrom`
    * `Sorting.mergeOverlap`
    * `Sorting.mergeRuns`
-/

------------------------------------------------------------
-- Pace
------------------------------------------------------------

namespace FactBase

namespace Sorting

variable {α ε : Type}

/-
  How a merge goes on: with a streak of elements from one of
  the runs, with the first or the second leap of a round, or
  as the longest leap of the last round tells.
-/
inductive Pace where
  | streak (fromShort fromLong : Nat)
  | opening
  | closing (leap : Nat)
  | settled (longest : Nat)
deriving DecidableEq, Repr

namespace Pace

/- The shortest leap that is worth the search for it. -/
def worthwhile : Nat := 7

/-
  The next thing to do, and the length of a streak after
  which leaps begin.  Rounds of leaps that go on make leaps
  begin sooner, rounds that end make them begin later.
-/
def resume (patience : Nat) : Pace → Pace × Nat
  | .streak s l =>
      if patience ≤ max s l then (.opening, patience)
      else (.streak s l, patience)
  | .settled longest =>
      if worthwhile ≤ longest then
        (.opening, max 1 (patience - 1))
      else (.streak 0 0, patience + 1)
  | pace => (pace, patience)

/- What follows a leap of some length. -/
def after (leap : Nat) : Pace → Pace
  | .closing first => .settled (max first leap)
  | _ => .closing leap

/-
  The leap is over elements of the short run.  In either
  direction it is the run that stands first in place whose
  elements are leapt over first.
-/
def leapsShort (d : Direction) : Pace → Bool
  | .opening => d == .forward
  | _ => d == .backward

end Pace

------------------------------------------------------------
-- Merging
------------------------------------------------------------

/-
  Merge a short run and a long one, and tell after which
  streak leaps begin by now.  The last element of the short
  run is known to come last, so a merge ends when it alone is
  left or when the long run is used up.
-/
def mergeFrom
    (d : Direction)
    (goesFirst : α → α → Except ε Bool)
    (pace : Pace)
    (patience : Nat)
    (short long : List α) : Except ε (List α × Nat) :=
  match short, long with
  | s :: s' :: shorts, l :: longs =>
      match pace.resume patience with
      | (.streak m n, patience) => do
          if ← goesFirst l s then
            let (rest, p) ←
              mergeFrom d goesFirst (.streak 0 (n + 1)) patience
                (s :: s' :: shorts) longs
            return (l :: rest, p)
          else
            let (rest, p) ←
              mergeFrom d goesFirst (.streak (m + 1) 0) patience
                (s' :: shorts) (l :: longs)
            return (s :: rest, p)
      | (pace, patience) =>
          if pace.leapsShort d then do
            let shorts := s :: s' :: shorts
            let k ←
              gallop d (fun x => waits (goesFirst l x)) shorts
            let (rest, p) ←
              mergeFrom d goesFirst (pace.after k) patience
                (shorts.drop k) longs
            return (shorts.take k ++ l :: rest, p)
          else do
            let longs := l :: longs
            let k ←
              gallop d (fun x => goesFirst x s) longs
            let (rest, p) ←
              mergeFrom d goesFirst (pace.after k) patience
                (s' :: shorts) (longs.drop k)
            return (longs.take k ++ s :: rest, p)
  | short, long => .ok (long ++ short, patience)
termination_by short.length + long.length
decreasing_by
  all_goals simp only [List.length_cons, List.length_drop]
  all_goals omega

/-
  Merge two runs of which the first begins after the second
  and ends after it.  The shorter run is merged into the
  longer one, from the end where the longer one comes first.
-/
def mergeOverlap
    (less : α → α → Except ε Bool)
    (patience : Nat)
    (xs ys : List α) : Except ε (List α × Nat) :=
  if xs.length ≤ ys.length then
    match ys with
    | [] => .ok (xs, patience)
    | y :: ys => do
        let (rest, p) ←
          mergeFrom .forward less (.streak 0 0) patience xs ys
        return (y :: rest, p)
  else
    match xs.reverse with
    | [] => .ok (ys, patience)
    | x :: xs => do
        let (rest, p) ←
          mergeFrom .backward (fun l s => less s l)
            (.streak 0 0) patience ys.reverse xs
        return ((x :: rest).reverse, p)

/-
  Merge two runs, the first one winning ties.  What comes
  before the second run and what comes after the first are
  left in place.
-/
def mergeRuns
    (less : α → α → Except ε Bool)
    (patience : Nat)
    (xs ys : List α) : Except ε (List α × Nat) :=
  match ys with
  | [] => .ok (xs, patience)
  | y :: _ => do
      let k ← gallop .forward (fun x => waits (less y x)) xs
      match (xs.drop k).getLast? with
      | none => return (xs ++ ys, patience)
      | some x => do
          let back := ys.reverse
          let t ← gallop .backward (fun y => waits (less y x)) back
          let (overlap, p) ←
            mergeOverlap less patience (xs.drop k)
              (back.drop t).reverse
          return (xs.take k ++ overlap ++ (back.take t).reverse, p)

end Sorting

end FactBase
