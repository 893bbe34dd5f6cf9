/-
  This file defines look-up in a list of closed ranges of
  code points, the form in which character classes beyond
  ASCII are kept.

  Key definitions include:
    * `Text.inRanges`
-/

------------------------------------------------------------
-- Ranges of Code Points
------------------------------------------------------------

namespace FactBase

namespace Text

/- Some range of the list holds the code point. -/
def inRanges
    (ranges : List (Nat × Nat))
    (n : Nat) : Bool :=
  ranges.any (fun r => r.1 ≤ n && n ≤ r.2)

/- Look-up succeeds exactly in the ranges of the list. -/
theorem inRanges_iff
    (ranges : List (Nat × Nat))
    (n : Nat) :
    inRanges ranges n = true ↔
      ∃ r ∈ ranges, r.1 ≤ n ∧ n ≤ r.2 := by
  simp [inRanges, List.any_eq_true]

end Text

end FactBase
