/-
  This file defines searches in lists whose elements go up to
  some place and no further.  Whether an element goes may
  fail to be known; then the search fails.

  Key definitions include:
    * `Sorting.Direction`
    * `Sorting.waits`
    * `Sorting.halve`
    * `Sorting.gallop`
-/

------------------------------------------------------------
-- Directions
------------------------------------------------------------

namespace FactBase

namespace Sorting

variable {α ε : Type}

/-
  The direction in which a list runs.  A list that runs
  backward is the reverse of one that stands in its place.
-/
inductive Direction where
  | forward
  | backward
deriving DecidableEq, Repr

/-
  The place at which a list of some length is halved.  Of two
  middles it is the one that stands later in place.
-/
def Direction.middle : Direction → Nat → Nat
  | .forward, n => n / 2
  | .backward, n => (n - 1) / 2

/- A list that is not empty is halved inside. -/
theorem Direction.middle_lt
    (d : Direction)
    {n : Nat}
    (h : 0 < n) :
    d.middle n < n := by
  cases d <;> simp only [middle] <;> omega

------------------------------------------------------------
-- Halving
------------------------------------------------------------

/- Whether an element waits, if another may go before it. -/
def waits
    (goesBefore : Except ε Bool) : Except ε Bool := do
  return !(← goesBefore)

/- The number of leading elements that go, found by halving. -/
def halve
    (d : Direction)
    (goes : α → Except ε Bool)
    (xs : List α) : Except ε Nat :=
  match _hMiddle : xs[d.middle xs.length]? with
  | none => .ok 0
  | some x => do
      let i := d.middle xs.length
      if ← goes x then
        return i + 1 + (← halve d goes (xs.drop (i + 1)))
      else
        halve d goes (xs.take i)
termination_by xs.length
decreasing_by
  all_goals
    have hLt := (List.getElem?_eq_some_iff.mp _hMiddle).1
  · rw [List.length_drop]
    omega
  · rw [List.length_take]
    omega

------------------------------------------------------------
-- Leaps
------------------------------------------------------------

/-
  The number of leading elements that go, if some are known
  to.  Each leap is as long as what is known; the last one
  is searched by halving.
-/
def gallopFrom
    (d : Direction)
    (goes : α → Except ε Bool)
    (known : Nat)
    (xs : List α) : Except ε Nat :=
  let next := known + (known - 1)
  match _hNext : xs[next]? with
  | none => do
      return known + (← halve d goes (xs.drop known))
  | some x => do
      if ← goes x then
        gallopFrom d goes (next + 1) xs
      else
        let window := (xs.take next).drop known
        return known + (← halve d goes window)
termination_by xs.length - known
decreasing_by
  have hLt := (List.getElem?_eq_some_iff.mp _hNext).1
  omega

/- The number of leading elements that go, found by leaps. -/
def gallop
    (d : Direction)
    (goes : α → Except ε Bool)
    (xs : List α) : Except ε Nat :=
  gallopFrom d goes 0 xs

end Sorting

end FactBase
