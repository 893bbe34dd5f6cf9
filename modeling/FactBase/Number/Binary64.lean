import FactBase.Number.Dyadic

/-
  This file defines double-precision binary numbers as exact
  values, so that every comparison and every conversion is
  integer arithmetic.

  Key definitions include:
    * `Binary64`
    * `Binary64.magnitude`
    * `Binary64.ofRatio`
    * `Binary64.ofDecimal`
    * `Binary64.isZero`
-/

------------------------------------------------------------
-- Double-Precision Numbers
------------------------------------------------------------

namespace FactBase

/-
  A double-precision number.  A finite one is
  `significand * 2 ^ exponent` with a significand below
  `2 ^ 53` and an exponent of at least `-1074`; the sign is
  kept apart because zero has two.  Undefined results carry
  the occurrence they came from: two of them are never equal,
  but a container still recognises the one it holds.
-/
inductive Binary64 where
  | finite
      (negative : Bool)
      (significand : Nat)
      (exponent : Int)
  | infinite (negative : Bool)
  | undefined (occurrence : Nat)
deriving DecidableEq, Repr

namespace Binary64

/- Attach a sign to a natural number. -/
def signed
    (negative : Bool)
    (n : Nat) : Int :=
  if negative then -(n : Int) else n

/- The exact value, for comparisons. -/
def magnitude : Binary64 → Magnitude
  | .finite negative m e =>
      .exact { significand := signed negative m, exponent := e }
  | .infinite negative => .infinite negative
  | .undefined _ => .undefined

/- Both zeros count as zero. -/
def isZero : Binary64 → Bool
  | .finite _ m _ => m == 0
  | _ => false

------------------------------------------------------------
-- Rounding
------------------------------------------------------------

/- The least exponent of a finite number. -/
def leastExponent : Int := -1074

/- The greatest exponent of a finite number. -/
def greatestExponent : Int := 971

/-
  Round `num / den` to a natural number, an exact half going
  to the even neighbour.
-/
def roundHalfEven
    (num den : Nat) : Nat :=
  let q := num / den
  let r := num % den
  match compare (2 * r) den with
  | .lt => q
  | .gt => q + 1
  | .eq => if q % 2 == 0 then q else q + 1

/- The significand of `num / den` at exponent `e`. -/
def significandAt
    (num den : Nat)
    (e : Int) : Nat :=
  roundHalfEven
    (num * Nat.pow 2 (-e).toNat)
    (den * Nat.pow 2 e.toNat)

/-
  The exponent at which `num / den` has 53 binary digits
  before rounding, or the least exponent where that would be
  too small.
-/
def exponentFor
    (num den : Nat) : Int :=
  let e : Int := (num.log2 : Int) - den.log2 - 52
  let whole :=
    num * Nat.pow 2 (-e).toNat / (den * Nat.pow 2 e.toNat)
  max leastExponent
    (if whole < Nat.pow 2 52 then e - 1 else e)

/-
  The double-precision number nearest to `num / den`, an
  exact half going to the even neighbour.
-/
def ofRatio
    (negative : Bool)
    (num den : Nat) : Binary64 :=
  if num == 0 then
    .finite negative 0 leastExponent
  else
    let e := exponentFor num den
    let m := significandAt num den e
    let (m, e) :=
      if m == Nat.pow 2 53 then (Nat.pow 2 52, e + 1)
      else (m, e)
    if e > greatestExponent then
      .infinite negative
    else
      .finite negative m e

/- The number nearest to `digits * 10 ^ exponent`. -/
def ofDecimal
    (negative : Bool)
    (digits : Nat)
    (exponent : Int) : Binary64 :=
  ofRatio negative
    (digits * Nat.pow 10 exponent.toNat)
    (Nat.pow 10 (-exponent).toNat)

end Binary64

end FactBase
