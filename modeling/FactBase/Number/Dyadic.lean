/-
  This file defines the numbers of the form `m * 2 ^ e`,
  which are the exact values of all integers and of all
  finite binary floating-point numbers, together with the
  extended line on which stored numbers are compared.

  Key definitions include:
    * `Dyadic`
    * `Dyadic.scaledTo`
    * `Dyadic.compare`
    * `Dyadic.truncate`
    * `Magnitude`
    * `Magnitude.compare?`
    * `Magnitude.equal`
-/

------------------------------------------------------------
-- Dyadic Numbers
------------------------------------------------------------

namespace FactBase

/-
  The number `significand * 2 ^ exponent`.
-/
structure Dyadic where
  significand : Int
  exponent : Int
deriving DecidableEq, Repr

namespace Dyadic

/- An integer as a dyadic number. -/
def ofInt (n : Int) : Dyadic where
  significand := n
  exponent := 0

/-
  The significand after lowering the exponent to `e`.
  It is exact whenever `e` is at most the exponent.
-/
def scaledTo
    (d : Dyadic)
    (e : Int) : Int :=
  d.significand * Nat.pow 2 (d.exponent - e).toNat

/-
  Two dyadic numbers are ordered as their significands at a
  common exponent.
-/
def compare
    (a b : Dyadic) : Ordering :=
  let e := min a.exponent b.exponent
  Ord.compare (a.scaledTo e) (b.scaledTo e)

/- The integer part, taken toward zero. -/
def truncate (d : Dyadic) : Int :=
  if 0 ≤ d.exponent then
    d.significand * Nat.pow 2 d.exponent.toNat
  else
    Int.tdiv d.significand (Nat.pow 2 (-d.exponent).toNat)

/- Truncating an integer changes nothing. -/
theorem truncate_ofInt (n : Int) :
    (ofInt n).truncate = n := by
  simp [truncate, ofInt]

/- Integers compare as dyadic numbers as they do as integers. -/
theorem compare_ofInt (m n : Int) :
    compare (ofInt m) (ofInt n) = Ord.compare m n := by
  simp [compare, scaledTo, ofInt]

end Dyadic

------------------------------------------------------------
-- The Extended Line
------------------------------------------------------------

/-
  A number as far as comparisons see it: an exact value, one
  of the two infinities, or no number at all.
-/
inductive Magnitude where
  | exact (value : Dyadic)
  | infinite (negative : Bool)
  | undefined
deriving DecidableEq, Repr

namespace Magnitude

/-
  Order two magnitudes.  Nothing is comparable with the
  undefined magnitude, itself included.
-/
def compare? : Magnitude → Magnitude → Option Ordering
  | .exact a, .exact b => some (a.compare b)
  | .infinite a, .infinite b =>
      some (Ord.compare b a)
  | .infinite a, .exact _ =>
      some (if a then .lt else .gt)
  | .exact _, .infinite b =>
      some (if b then .gt else .lt)
  | .undefined, _ => none
  | _, .undefined => none

/- Two magnitudes are equal when they compare as such. -/
def equal (a b : Magnitude) : Bool :=
  a.compare? b == some .eq

/- The undefined magnitude equals nothing. -/
theorem equal_undefined (a : Magnitude) :
    a.equal .undefined = false := by
  cases a <;> rfl

end Magnitude

end FactBase
